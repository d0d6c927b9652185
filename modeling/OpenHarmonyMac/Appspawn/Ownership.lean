import OpenHarmonyMac.Infra.Custody
import OpenHarmonyMac.Appspawn.Dispatch
import OpenHarmonyMac.Appspawn.Effects

/-!
# Who owns a message

A node is made for the first bytes of a message. Until it is released it belongs to the
connection (an incomplete message), to the function at work on it, or to a context.

`Owned locals s` is that law with the nodes that are in the hands of a function as `locals`.
Three branches break it: MSG_UPDATE_MOUNT_POINTS and a failing `MsgDevicedebugCheck` forget the
node, and a beget command that gets its node rebuilt releases it twice.

* `owned_once` — the law of ownership, as long as none of the three branches is taken
* `three_ways_to_lose` — what each of the three does
-/

namespace Appspawn

open Infra

variable {k : Codes} {s s' : Server} {locals : List NodeId} {n : NodeId} {c : ConnId}

/-- The node that a connection keeps. -/
def AppSpawnConnection.node (x : AppSpawnConnection) : List NodeId :=
  (x.incompleteMsg.map (·.1)).toList

/-- The nodes that belong to connections. -/
def Server.incomplete (s : Server) : List NodeId := s.connections.flatMap AppSpawnConnection.node

/-- The nodes that belong to contexts. -/
def Server.inContexts (s : Server) : List NodeId := s.appSpawnQueue.map (·.message.id)

/-- The law of ownership between two steps of a function. -/
structure Owned (locals : List NodeId) (s : Server) : Prop where
  custody : Custody s.created s.released (locals ++ s.incomplete ++ s.inContexts)
  numbered : ∀ n ∈ s.created, n < s.nextId
  connections : (s.connections.map (·.id)).Nodup
  connNumbered : ∀ x ∈ s.connections, x.id < s.nextId
  noStale : s.staleUses = []

namespace Owned

/-! ## The functions that handlers are made of -/

/-- No node is touched. -/
theorem congr (h : Owned locals s) (hc : s'.created = s.created) (hr : s'.released = s.released)
    (hx : s'.connections = s.connections) (hq : s'.inContexts = s.inContexts)
    (hn : s.nextId ≤ s'.nextId) (hs : s'.staleUses = s.staleUses) : Owned locals s' where
  custody := by
    rw [hc, hr, hq, Server.incomplete, hx]
    exact h.custody
  numbered m hm := Nat.lt_of_lt_of_le (h.numbered m (hc ▸ hm)) hn
  connections := by rw [hx]; exact h.connections
  connNumbered x hm := Nat.lt_of_lt_of_le (h.connNumbered x (hx ▸ hm)) hn
  noStale := hs.trans h.noStale

theorem not_released_local (h : Owned locals s) (hn : n ∈ locals) : n ∉ s.released :=
  h.custody.not_released (List.mem_append_left _ (List.mem_append_left _ hn))

theorem not_released_context (h : Owned locals s) {ctx : AppSpawningCtx}
    (hc : ctx ∈ s.appSpawnQueue) : ctx.message.id ∉ s.released :=
  h.custody.not_released (List.mem_append_right _ (List.mem_map_of_mem hc))

theorem use (h : Owned locals s) (hn : n ∉ s.released) : Owned locals (s.use n) :=
  h.congr rfl rfl rfl rfl (Nat.le_refl _) (by simp [hn])

theorem create (h : Owned locals s) : Owned (s.nextId :: locals) s.createAppSpawnMsg where
  custody := h.custody.create (fun hn => Nat.lt_irrefl _ (h.numbered _ hn))
  numbered m hm := by
    rcases List.mem_cons.mp hm with rfl | hm
    · exact Nat.lt_succ_self _
    · exact Nat.lt_succ_of_lt (h.numbered m hm)
  connections := h.connections
  connNumbered x hx := Nat.lt_succ_of_lt (h.connNumbered x hx)
  noStale := h.noStale

theorem delete (h : Owned (n :: locals) s) : Owned locals (s.deleteAppSpawnMsg n) where
  custody := h.custody.release
  numbered := h.numbered
  connections := h.connections
  connNumbered := h.connNumbered
  noStale := h.noStale

theorem sendResponse (h : Owned locals s) {m : AppSpawnMsgNode} (hn : m.id ∉ s.released)
    (c : ConnId) (result pid : Int) : Owned locals (s.sendResponse c m result pid) :=
  (h.use hn).congr rfl rfl rfl rfl (Nat.le_refl _) rfl

theorem reply {m : AppSpawnMsgNode} (h : Owned (m.id :: locals) s) (c : ConnId)
    (result pid : Int) : Owned locals (s.reply c m result pid) :=
  (h.sendResponse (h.not_released_local List.mem_cons_self) c result pid).delete

theorem refuse {m : AppSpawnMsgNode} (h : Owned (m.id :: locals) s) (c : ConnId) (result : Int) :
    Owned locals (s.refuse c m result) :=
  h.reply c result 0

/-- A node is passed to a new context. -/
theorem enqueue (ctx : AppSpawningCtx) (h : Owned (ctx.message.id :: locals) s)
    (hc : s'.created = s.created) (hr : s'.released = s.released)
    (hx : s'.connections = s.connections) (hq : s'.appSpawnQueue = s.appSpawnQueue ++ [ctx])
    (hn : s.nextId ≤ s'.nextId) (hs : s'.staleUses = s.staleUses) : Owned locals s' where
  custody := by
    rw [hc, hr]
    refine h.custody.move ?_
    simp only [Server.inContexts, Server.incomplete, hq, hx, List.map_append, List.cons_append]
    rw [← List.append_assoc]
    exact (List.perm_append_singleton ctx.message.id _).symm
  numbered m hm := Nat.lt_of_lt_of_le (h.numbered m (hc ▸ hm)) hn
  connections := by rw [hx]; exact h.connections
  connNumbered x hm := Nat.lt_of_lt_of_le (h.connNumbered x (hx ▸ hm)) hn
  noStale := hs.trans h.noStale

theorem contexts_nodup (h : Owned locals s) : s.inContexts.Nodup :=
  (List.nodup_append.mp h.custody.owned_nodup).2.1

/-- The end of a context. -/
theorem deleteCtx (h : Owned locals s) {ctx : AppSpawningCtx} (hc : ctx ∈ s.appSpawnQueue) :
    Owned locals (s.deleteAppSpawningCtx ctx) where
  custody := by
    refine Custody.release (h.custody.move ?_)
    have hmem : ctx.message.id ∈ s.inContexts := List.mem_map_of_mem hc
    have hrest : (s.deleteAppSpawningCtx ctx).inContexts = s.inContexts.erase ctx.message.id := by
      rw [h.contexts_nodup.erase_eq_filter, Server.inContexts, Server.inContexts, List.filter_map]
      rfl
    rw [hrest]
    exact ((List.perm_cons_erase hmem).append_left _).trans List.perm_middle
  numbered := h.numbered
  connections := h.connections
  connNumbered := h.connNumbered
  noStale := h.noStale

theorem answer (h : Owned locals s) {ctx : AppSpawningCtx} (hc : ctx ∈ s.appSpawnQueue)
    (result pid : Int) : Owned locals (s.answer ctx result pid) :=
  (h.sendResponse (h.not_released_context hc) _ result pid).deleteCtx hc

theorem effects (h : Owned locals s) (he : Effects s s') : Owned locals s' := by
  induction he with
  | refl => exact h
  | tail _ he ih =>
    cases he with
    | use ctx hc => exact ih.use (ih.not_released_context hc)
    | answer ctx result pid hc _ => exact ih.answer hc result pid
    | _ => exact ih.congr rfl rfl rfl rfl (Nat.le_refl _) rfl

/-! ## The record of a connection -/

/-- What a connection loses and gains when its record changes. -/
theorem perm_updateConnection {xs : List AppSpawnConnection} {x : AppSpawnConnection}
    (hnd : (xs.map (·.id)).Nodup) (hx : x ∈ xs) (f : AppSpawnConnection → AppSpawnConnection) :
    ((xs.map (fun y => if y.id = x.id then f y else y)).flatMap AppSpawnConnection.node
      ++ x.node).Perm ((f x).node ++ xs.flatMap AppSpawnConnection.node) := by
  induction xs with
  | nil => cases hx
  | cons y ys ih =>
    rw [List.map_cons, List.nodup_cons] at hnd
    rw [List.map_cons, List.flatMap_cons, List.flatMap_cons]
    rcases List.mem_cons.mp hx with rfl | hx
    · -- the others keep their records
      have hrest : ys.map (fun y => if y.id = x.id then f y else y) = ys := by
        conv_rhs => rw [← List.map_id ys]
        refine List.map_congr_left (fun y hy => if_neg (fun he => hnd.1 ?_))
        exact he ▸ List.mem_map_of_mem hy
      rw [if_pos rfl, hrest, List.append_assoc]
      exact List.perm_append_comm.append_left _
    · have hne : y.id ≠ x.id := fun he => hnd.1 (he ▸ List.mem_map_of_mem hx)
      rw [if_neg hne, List.append_assoc]
      refine ((ih hnd.2 hx).append_left y.node).trans ?_
      rw [← List.append_assoc, ← List.append_assoc]
      exact List.perm_append_comm.append_right _

variable {x : AppSpawnConnection} {locals' : List NodeId}

/-- A connection gives its node away, or is given one. -/
theorem exchange (h : Owned locals s) (hx : x ∈ s.connections)
    {f : AppSpawnConnection → AppSpawnConnection} (hid : ∀ y, (f y).id = y.id)
    (hl : (locals ++ x.node).Perm (locals' ++ (f x).node)) :
    Owned locals' (s.updateConnection x.id f) where
  custody := by
    refine h.custody.move (List.Perm.append_right _ ?_)
    have hp := perm_updateConnection h.connections hx f
    refine (List.perm_append_right_iff x.node).mp ?_
    calc locals ++ s.incomplete ++ x.node
        _ |>.Perm (locals ++ x.node ++ s.incomplete) := by
          rw [List.append_assoc, List.append_assoc]
          exact List.perm_append_comm.append_left _
        _ |>.Perm (locals' ++ (f x).node ++ s.incomplete) := hl.append_right _
        _ |>.Perm (locals' ++ (s.updateConnection x.id f).incomplete ++ x.node) := by
          rw [List.append_assoc, List.append_assoc]
          exact hp.symm.append_left _
  numbered := h.numbered
  connections := by
    have hmap : (s.updateConnection x.id f).connections.map (·.id) = s.connections.map (·.id) := by
      rw [Server.updateConnection_connections, List.map_map]
      refine List.map_congr_left (fun y _ => ?_)
      simp only [Function.comp_apply]
      split
      · exact hid y
      · rfl
    rw [hmap]
    exact h.connections
  connNumbered y hy := by
    obtain ⟨z, hz, rfl⟩ := List.mem_map.mp hy
    split
    · rw [hid]
      exact h.connNumbered z hz
    · exact h.connNumbered z hz
  noStale := h.noStale

/-- The record changes and the node stays. -/
theorem updateConnection (h : Owned locals s) (f : AppSpawnConnection → AppSpawnConnection)
    (hid : ∀ y, (f y).id = y.id) (hnode : ∀ y, (f y).node = y.node) (c : ConnId) :
    Owned locals (s.updateConnection c f) := by
  by_cases hc : ∃ x ∈ s.connections, x.id = c
  · obtain ⟨x, hx, rfl⟩ := hc
    exact h.exchange hx hid (by rw [hnode])
  · refine h.congr rfl rfl ?_ rfl (Nat.le_refl _) rfl
    rw [Server.updateConnection_connections]
    conv_rhs => rw [← List.map_id s.connections]
    exact List.map_congr_left (fun y hy => if_neg (fun he => hc ⟨y, hy, he⟩))

/-- The incomplete message is released and the connection forgets it. -/
theorem dropIncomplete (h : Owned locals s) (hx : x ∈ s.connections)
    {f : AppSpawnConnection → AppSpawnConnection} (hid : ∀ y, (f y).id = y.id)
    (hf : (f x).node = []) :
    Owned locals ((deleteIncompleteMsg s x).updateConnection x.id f) := by
  have htaken : Owned (x.node ++ locals) (s.updateConnection x.id f) :=
    h.exchange hx hid (by
      rw [hf, List.append_nil]
      exact List.perm_append_comm)
  unfold deleteIncompleteMsg
  unfold AppSpawnConnection.node at htaken
  split
  · next hnone =>
    rw [hnone] at htaken
    exact htaken
  · next m hm =>
    rw [hm] at htaken
    exact htaken.delete

/-! ## The close of a connection -/

theorem onCloseCtx (h : Owned locals s) (c : ConnId) {ctx : AppSpawningCtx}
    (hc : ctx ∈ s.appSpawnQueue) : Owned locals (appSpawningCtxOnClose c s ctx) := by
  have hu := h.use (h.not_released_context hc)
  simp only [appSpawningCtxOnClose]
  split
  · exact hu
  · split
    · have hk : Owned locals ((s.use ctx.message.id).kill ctx.pid SIGKILL) :=
        hu.congr rfl rfl rfl rfl (Nat.le_refl _) rfl
      exact hk.deleteCtx hc
    · exact hu.deleteCtx hc

/-- A context that is not the one at hand stays. -/
theorem mem_onCloseCtx {ctx other : AppSpawningCtx} (c : ConnId) (ho : other ∈ s.appSpawnQueue)
    (hne : other.message.id ≠ ctx.message.id) :
    other ∈ (appSpawningCtxOnClose c s ctx).appSpawnQueue := by
  have hb : (other.message.id != ctx.message.id) = true := bne_iff_ne.mpr hne
  simp only [appSpawningCtxOnClose]
  split
  · exact ho
  · split
    · exact List.mem_filter.mpr ⟨ho, hb⟩
    · exact List.mem_filter.mpr ⟨ho, hb⟩

theorem traversal (c : ConnId) (ctxs : List AppSpawningCtx) : ∀ s, Owned locals s →
    (∀ ctx ∈ ctxs, ctx ∈ s.appSpawnQueue) → (ctxs.map (·.message.id)).Nodup →
      Owned locals (ctxs.foldl (appSpawningCtxOnClose c) s) := by
  induction ctxs with
  | nil => exact fun _ h _ _ => h
  | cons ctx ctxs ih =>
    intro s h hmem hnd
    rw [List.map_cons, List.nodup_cons] at hnd
    refine ih _ (h.onCloseCtx c (hmem ctx List.mem_cons_self)) (fun other ho => ?_) hnd.2
    refine mem_onCloseCtx c (hmem other (List.mem_cons_of_mem _ ho)) (fun he => hnd.1 ?_)
    exact he ▸ List.mem_map_of_mem ho

theorem onClose (h : Owned locals s) (c : ConnId) : Owned locals (onClose s c) := by
  unfold Appspawn.onClose
  split
  · exact h
  · next conn hf =>
    have hconn : conn ∈ s.connections := List.mem_of_find?_eq_some hf
    obtain rfl : conn.id = c := by simpa using List.find?_some hf
    have hdeleted : Owned locals
        ((deleteIncompleteMsg s conn).updateConnection conn.id AppSpawnConnection.onClose) :=
      h.dropIncomplete hconn (fun _ => rfl) rfl
    exact traversal conn.id _ _ hdeleted (fun _ hc => hc) hdeleted.contexts_nodup

theorem flatMap_node_filter {xs : List AppSpawnConnection}
    (h : ∀ x ∈ xs, x.id = c → x.node = []) :
    (xs.filter (·.id != c)).flatMap AppSpawnConnection.node
      = xs.flatMap AppSpawnConnection.node := by
  induction xs with
  | nil => rfl
  | cons x xs ih =>
    have ih := ih (fun y hy => h y (List.mem_cons_of_mem _ hy))
    by_cases hc : x.id = c
    · rw [List.filter_cons_of_neg (by simp [hc]), ih, List.flatMap_cons,
        h x List.mem_cons_self hc, List.nil_append]
    · rw [List.filter_cons_of_pos (by simp [hc]), List.flatMap_cons, List.flatMap_cons, ih]

/-- The close handler leaves the connection without a message. -/
theorem node_onClose (s : Server) (c : ConnId) :
    ∀ x ∈ (Appspawn.onClose s c).connections, x.id = c → x.node = [] := by
  unfold Appspawn.onClose
  split
  · next hnone =>
    intro x hx hc
    exact absurd (beq_iff_eq.mpr hc) (List.find?_eq_none.mp hnone x hx)
  · next conn _ =>
    obtain ⟨_, _, _, heq⟩ := foldl_onClose c
      ((deleteIncompleteMsg s conn).updateConnection c AppSpawnConnection.onClose).appSpawnQueue
      ((deleteIncompleteMsg s conn).updateConnection c AppSpawnConnection.onClose)
    rw [heq]
    intro x hx hc
    obtain ⟨y, -, rfl⟩ := List.mem_map.mp hx
    split at hc
    · next hy =>
      rw [if_pos hy]
      rfl
    · next hy => exact absurd hc hy

theorem closeTask (h : Owned locals s) (c : ConnId) : Owned locals (closeTask s c) := by
  have hc := h.onClose c
  refine ⟨?_, hc.numbered, hc.connections.sublist (List.filter_sublist.map _),
    fun x hx => hc.connNumbered x (List.mem_filter.mp hx).1, hc.noStale⟩
  have hcustody := hc.custody
  rw [Server.incomplete, ← flatMap_node_filter (node_onClose s c)] at hcustody
  exact hcustody

/-! ## The handlers of a message -/

theorem startChild (h : Owned (n :: locals) s) {env : SpawnEnv} {client : AppSpawnClient}
    {m : AppSpawnMsgNode} (hn : m.id = n) : Owned locals (startChild k env s client m) := by
  subst hn
  rw [startChild_eq k env s client m rfl rfl]
  generalize started k env s client m = r
  have hs : Owned locals (s.spawned r (spawningCtx r client m)) :=
    enqueue (spawningCtx r client m) h rfl rfl rfl rfl (Nat.le_add_right _ 3) rfl
  have hmem : spawningCtx r client m ∈ (s.spawned r (spawningCtx r client m)).appSpawnQueue :=
    List.mem_append_right _ List.mem_cons_self
  split
  · exact hs.answer hmem _ _
  · split
    · have hk : Owned locals ((s.spawned r (spawningCtx r client m)).kill
          (spawningCtx r client m).pid SIGKILL) :=
        hs.congr rfl rfl rfl rfl (Nat.le_refl _) rfl
      exact hk.answer hmem _ _
    · exact hs

theorem processSpawnReqMsg {m : AppSpawnMsgNode} (h : Owned (m.id :: locals) s) (env : SpawnEnv)
    (c : ConnId) : Owned locals (processSpawnReqMsg k env s c m) := by
  have hu : Owned (m.id :: locals) ((s.use m.id).noteRequest c m.id) :=
    (h.use (h.not_released_local List.mem_cons_self)).congr rfl rfl rfl rfl (Nat.le_refl _) rfl
  simp only [Appspawn.processSpawnReqMsg]
  split
  · exact hu.refuse c _
  · split
    · exact hu.refuse c _
    · exact hu.startChild rfl

end Owned

/-- A tracked child is rebuilt for a beget command. -/
def DispatchEnv.Rebuilds (env : DispatchEnv) (s : Server) (msg : AppSpawnMsg) : Prop :=
  env.spawn.developerMode = true ∧ (∃ pid ∈ msg.begetPid, (s.getSpawnedProcess pid).isSome = true) ∧
    env.rebuilt.isSome = true ∧ env.rebuiltDecode = 0

instance (env : DispatchEnv) (s : Server) (msg : AppSpawnMsg) : Decidable (env.Rebuilds s msg) :=
  inferInstanceAs (Decidable (_ ∧ (∃ pid ∈ msg.begetPid, _) ∧ _ ∧ _))

/-- The handler of the message releases its node once. -/
def DispatchEnv.Disposes (env : DispatchEnv) (s : Server) (msg : AppSpawnMsg) : Prop :=
  msg.msgType ≠ .updateMountPoints ∧ (msg.msgType = .begetCmd → ¬ env.Rebuilds s msg)

instance (env : DispatchEnv) (s : Server) (msg : AppSpawnMsg) : Decidable (env.Disposes s msg) :=
  inferInstanceAs (Decidable (_ ∧ _))

namespace Owned

variable {env : DispatchEnv} {m : AppSpawnMsgNode}

/-- Without a rebuilt node the beget command leaves the books as they were. -/
theorem processSpawnBegetctlMsg (h : Owned locals s) (hdev : env.spawn.developerMode = true)
    (hr : ¬ env.Rebuilds s m.msg) : (processSpawnBegetctlMsg env s m).2 = none ∧
      Owned locals (processSpawnBegetctlMsg env s m).1 := by
  unfold Appspawn.processSpawnBegetctlMsg
  split
  · exact ⟨rfl, h⟩
  · next pid hpid =>
    split
    · exact ⟨rfl, h⟩
    · next app happ =>
      split
      · exact ⟨rfl, h⟩
      · next msg hmsg =>
        have hne : env.rebuiltDecode ≠ 0 := fun he =>
          hr ⟨hdev, ⟨pid, hpid, by rw [happ]; rfl⟩, by rw [hmsg]; rfl, he⟩
        rw [if_pos hne]
        exact ⟨rfl, h.create.delete⟩

theorem processBegetCmdMsg (h : Owned (m.id :: locals) s) (c : ConnId)
    (hr : ¬ env.Rebuilds s m.msg) : Owned locals (processBegetCmdMsg k env s c m) := by
  unfold Appspawn.processBegetCmdMsg
  split
  · exact h.refuse c _
  · next hdev =>
    obtain ⟨hnone, hb⟩ := h.processSpawnBegetctlMsg (by simpa using hdev) hr
    simp only [hnone]
    exact hb.refuse c _

theorem processSpawnRestartMsg (h : Owned (m.id :: locals) s) (c : ConnId) :
    Owned locals (processSpawnRestartMsg k env s c m) := by
  unfold Appspawn.processSpawnRestartMsg
  split
  · exact h.refuse c _
  · have hd : Owned (m.id :: locals) (s.appQueue.foldl appQueueDestroyProc s) :=
      h.effects (Effects.foldl effects_appQueueDestroyProc _ s)
    simp only
    split
    · exact (hd.refuse c 0).congr rfl rfl rfl rfl (Nat.le_refl _) rfl
    · exact hd.refuse c 0

theorem processUninstallDebugHap (h : Owned (m.id :: locals) s) (c : ConnId) :
    Owned locals (processUninstallDebugHap k env s c m) := by
  unfold Appspawn.processUninstallDebugHap
  split
  · exact h.refuse c _
  · next client _ =>
    have hq : Owned locals
        { s with appSpawnQueue := s.appSpawnQueue ++ [uninstallCtx c client m] } :=
      enqueue (uninstallCtx c client m) h rfl rfl rfl rfl (Nat.le_refl _) rfl
    exact hq.answer (List.mem_append_right _ List.mem_cons_self) _ _

theorem processAppSpawnDeviceDebugMsg (h : Owned locals s) :
    Owned locals (processAppSpawnDeviceDebugMsg k env s m).1 := by
  unfold Appspawn.processAppSpawnDeviceDebugMsg appspawnDevicedebugDeal appspawpnDevicedebugKill
  split
  · split
    · split
      · exact h
      · split
        · exact h
        · split
          · exact h
          · exact h.congr rfl rfl rfl rfl (Nat.le_refl _) rfl
    · exact h
  · exact h

theorem processAppSpawnLockStatusMsg (h : Owned locals s) :
    Owned locals (processAppSpawnLockStatusMsg env s m) := by
  unfold Appspawn.processAppSpawnLockStatusMsg
  split
  · exact h
  · split
    · exact h
    · exact h.congr rfl rfl rfl rfl (Nat.le_refl _) rfl

/-- **Every message type but the two disposes of its node once.** -/
theorem processRecvMsg (h : Owned (m.id :: locals) s) (c : ConnId) (hok : env.Disposes s m.msg) :
    Owned locals (processRecvMsg k env s c m) := by
  have hu : Owned (m.id :: locals) (s.use m.id) :=
    h.use (h.not_released_local List.mem_cons_self)
  simp only [Appspawn.processRecvMsg]
  split
  · exact hu.reply c _ _
  · exact hu.processSpawnReqMsg env.spawn c
  · exact hu.processSpawnReqMsg env.spawn c
  · exact hu.reply c _ _
  · next ht => exact hu.processBegetCmdMsg c (hok.2 ht)
  · exact hu.reply c _ _
  · next ht => exact absurd ht hok.1
  · exact hu.processSpawnRestartMsg c
  · exact hu.processAppSpawnDeviceDebugMsg.reply c _ _
  · exact hu.processUninstallDebugHap c
  · exact hu.processAppSpawnLockStatusMsg.reply c _ _
  · exact hu.reply c _ _

end Owned

/-! ## The connections during a dispatch -/

theorem connections_effects (h : Effects s s') : s'.connections = s.connections := by
  induction h with
  | refl => rfl
  | tail _ he ih =>
    cases he with
    | _ => exact ih

theorem connections_processSpawnReqMsg (env : SpawnEnv) (s : Server) (c : ConnId)
    (m : AppSpawnMsgNode) : (processSpawnReqMsg k env s c m).connections = s.connections := by
  simp only [processSpawnReqMsg]
  split
  · simp
  · split
    · simp
    · rw [startChild_eq k env _ _ _ rfl rfl]
      split
      · simp
      · split <;> simp

theorem connections_processSpawnBegetctlMsg (env : DispatchEnv) (s : Server)
    (m : AppSpawnMsgNode) : (processSpawnBegetctlMsg env s m).1.connections = s.connections := by
  unfold processSpawnBegetctlMsg
  split
  · rfl
  · split
    · rfl
    · split
      · rfl
      · simp only
        split <;> simp

theorem connections_processBegetCmdMsg (env : DispatchEnv) (s : Server) (c : ConnId)
    (m : AppSpawnMsgNode) : (processBegetCmdMsg k env s c m).connections = s.connections := by
  have hb := connections_processSpawnBegetctlMsg env s m
  unfold processBegetCmdMsg
  split
  · simp
  · simp only
    split
    · rw [Server.refuse_connections, hb]
    · rw [Server.deleteAppSpawnMsg_connections, Server.deleteAppSpawnMsg_connections,
        connections_processSpawnReqMsg, hb]

theorem connections_processSpawnRestartMsg (env : DispatchEnv) (s : Server) (c : ConnId)
    (m : AppSpawnMsgNode) : (processSpawnRestartMsg k env s c m).connections = s.connections := by
  have hd := connections_effects (Effects.foldl effects_appQueueDestroyProc s.appQueue s)
  unfold processSpawnRestartMsg
  split
  · simp
  · simp only
    split
    · simpa using hd
    · simpa using hd

theorem connections_processUninstallDebugHap (env : DispatchEnv) (s : Server) (c : ConnId)
    (m : AppSpawnMsgNode) : (processUninstallDebugHap k env s c m).connections = s.connections := by
  unfold processUninstallDebugHap
  split <;> simp

theorem connections_processAppSpawnDeviceDebugMsg (env : DispatchEnv) (s : Server)
    (m : AppSpawnMsgNode) :
    (processAppSpawnDeviceDebugMsg k env s m).1.connections = s.connections := by
  unfold processAppSpawnDeviceDebugMsg appspawnDevicedebugDeal appspawpnDevicedebugKill
  split
  · split
    · split
      · rfl
      · split
        · rfl
        · split <;> rfl
    · rfl
  · rfl

theorem connections_processAppSpawnLockStatusMsg (env : DispatchEnv) (s : Server)
    (m : AppSpawnMsgNode) :
    (processAppSpawnLockStatusMsg env s m).connections = s.connections := by
  unfold processAppSpawnLockStatusMsg
  split
  · rfl
  · split <;> rfl

/-- A dispatch leaves the connections alone. -/
theorem connections_processRecvMsg (env : DispatchEnv) (s : Server) (c : ConnId)
    (m : AppSpawnMsgNode) : (processRecvMsg k env s c m).connections = s.connections := by
  simp only [processRecvMsg]
  split
  · simp
  · rw [connections_processSpawnReqMsg, Server.use_connections]
  · rw [connections_processSpawnReqMsg, Server.use_connections]
  · simp
  · rw [connections_processBegetCmdMsg, Server.use_connections]
  · simp
  · simp
  · rw [connections_processSpawnRestartMsg, Server.use_connections]
  · rw [Server.reply_connections, connections_processAppSpawnDeviceDebugMsg, Server.use_connections]
  · rw [connections_processUninstallDebugHap, Server.use_connections]
  · rw [Server.reply_connections, connections_processAppSpawnLockStatusMsg, Server.use_connections]
  · simp

/-! ## The rounds of a buffer -/

variable {lib : MsgLib}

/-- The round does not drop its node: the uid check passes, and the handler disposes of it. -/
def RoundDisposes (lib : MsgLib) (env : DispatchEnv) (s : Server) (r : Round) : Prop :=
  match r.piece with
  | .refused _ => False
  | .dispatched message => env.Disposes s (lib.view message)
  | _ => True

/-- No round of the call drops its node. -/
def RoundsDispose (k : Codes) (lib : MsgLib) (c : ConnId) :
    Server → Option NodeId → List Round → List DispatchEnv → Prop
  | _, _, [], _ => True
  | s, held, r :: rs, envs => RoundDisposes lib (envs.headD {}) s r ∧
    RoundsDispose k lib c (runPiece k lib (envs.headD {}) s c held r) none rs envs.tail

instance (env : DispatchEnv) (s : Server) (r : Round) : Decidable (RoundDisposes lib env s r) := by
  unfold RoundDisposes
  split <;> infer_instance

instance RoundsDispose.decidable (c : ConnId) :
    ∀ s held rs envs, Decidable (RoundsDispose k lib c s held rs envs)
  | _, _, [], _ => .isTrue trivial
  | s, held, r :: rs, envs =>
    have := RoundsDispose.decidable c (runPiece k lib (envs.headD {}) s c held r) none rs envs.tail
    inferInstanceAs (Decidable (_ ∧ _))

theorem connections_takeNode (s : Server) (held : Option NodeId) :
    (s.takeNode held).1.connections = s.connections := by
  cases held <;> rfl

theorem disposes_takeNode {env : DispatchEnv} {msg : AppSpawnMsg} (h : env.Disposes s msg)
    (held : Option NodeId) (n : NodeId) (c : ConnId) :
    env.Disposes (((s.takeNode held).1.use n).updateConnection c AppSpawnConnection.complete) msg := by
  cases held <;> exact h

namespace Owned

variable {env : DispatchEnv} {held : Option NodeId} {r : Round} {x : AppSpawnConnection}

theorem takeNode (h : Owned (held.toList ++ locals) s) :
    Owned ((s.takeNode held).2 :: locals) (s.takeNode held).1 := by
  cases held with
  | none => exact h.create
  | some n => exact h

/-- **One round.** Its node is released or gets an owner. -/
theorem runPiece (h : Owned (held.toList ++ locals) s) (hx : x ∈ s.connections)
    (hnode : x.node = []) (hok : RoundDisposes lib env s r) :
    Owned locals (runPiece k lib env s x.id held r) := by
  have ht := h.takeNode
  have hu := ht.use (ht.not_released_local List.mem_cons_self)
  have hc : Owned _ (((s.takeNode held).1.use (s.takeNode held).2).updateConnection x.id
      AppSpawnConnection.complete) :=
    hu.updateConnection AppSpawnConnection.complete (fun _ => rfl) (fun _ => rfl) x.id
  unfold RoundDisposes at hok
  simp only [Appspawn.runPiece]
  split
  · next message hp =>
    split
    · next hnone =>
      simp only [Bool.and_eq_true, Option.isNone_iff_eq_none] at hnone
      rw [hnone.1] at h
      exact h
    · exact ht.delete
  · next message hp =>
    have hx' : x ∈ ((s.takeNode held).1.use (s.takeNode held).2).connections := by
      rw [Server.use_connections, connections_takeNode]
      exact hx
    refine hu.exchange hx' (fun _ => rfl) ?_
    rw [hnode, List.append_nil]
    exact (List.perm_append_singleton _ _).symm
  · next message hp =>
    rw [hp] at hok
    exact absurd hok id
  · exact hc.delete
  · next message hp =>
    rw [hp] at hok
    exact hc.processRecvMsg x.id (disposes_takeNode hok held _ x.id)

/-- A round that dispatched its message leaves the connection without one. -/
theorem exists_connection (hx : x ∈ s.connections) (hnode : x.node = []) {message : List UInt8}
    (hp : r.piece = .dispatched message) : ∃ y ∈ (Appspawn.runPiece k lib env s x.id held r).connections,
      y.id = x.id ∧ y.node = [] := by
  refine ⟨x.complete, ?_, rfl, hnode⟩
  simp only [Appspawn.runPiece, hp, connections_processRecvMsg, Server.updateConnection_connections,
    Server.use_connections, connections_takeNode]
  exact List.mem_map.mpr ⟨x, hx, if_pos rfl⟩

/-- **All rounds of a call**, by induction on the rounds: only the last one can be other than a
dispatch. -/
theorem runRounds {c : ConnId} (rs : List Round) : ∀ (s : Server) (held : Option NodeId)
    (envs : List DispatchEnv), Owned (held.toList ++ locals) s → rs ≠ [] →
      (∃ x ∈ s.connections, x.id = c ∧ x.node = []) → WellShaped (rs.map (·.piece)) →
        RoundsDispose k lib c s held rs envs → Owned locals (runRounds k lib c s held rs envs) := by
  induction rs with
  | nil => exact fun _ _ _ _ hne => absurd rfl hne
  | cons r rs ih =>
    rintro s held envs h - ⟨x, hx, rfl, hnode⟩ hshape ⟨hok, hrest⟩
    have hone : Owned locals (Appspawn.runPiece k lib (envs.headD {}) s x.id held r) :=
      h.runPiece hx hnode hok
    cases rs with
    | nil => exact hone
    | cons r' rs =>
      obtain ⟨⟨message, hp⟩, hshape⟩ := hshape
      exact ih _ none envs.tail hone (List.cons_ne_nil _ _) (exists_connection hx hnode hp) hshape
        hrest

theorem startTimerForCheckMsg (h : Owned locals s) (env : ReceiveEnv) (c : ConnId) :
    Owned locals (startTimerForCheckMsg env s c) := by
  unfold Appspawn.startTimerForCheckMsg
  split
  · exact h
  · split
    · exact h
    · split
      · exact h.closeTask c
      · have ht : Owned locals (s.updateConnection c (fun x => { x with timer := true })) :=
          h.updateConnection (fun x => { x with timer := true }) (fun _ => rfl) (fun _ => rfl) c
        simp only
        split
        · exact ht
        · exact ht.closeTask c

theorem rounds_ne_nil {check : AppSpawnMsg → Bool} {beyond : Nat → List UInt8} {ctx : ReceiverCtx}
    {buffer : List UInt8} (hlen : buffer.length < lib.maxMsgTotalLength) :
    (onReceiveRequest lib check beyond ctx buffer).rounds ≠ [] := by
  rw [onReceiveRequest, if_pos hlen, afterLoop_rounds, recvLoop]
  split
  · split <;> exact List.cons_ne_nil _ _
  · exact List.cons_ne_nil _ _

/-- **`OnReceiveRequest`** -/
theorem receiveRequest (h : Owned [] s) {shellUid : Nat} {env : ReceiveEnv} {buffer : List UInt8}
    (hx : x ∈ s.connections) (hok : buffer.length < lib.maxMsgTotalLength →
      RoundsDispose k lib x.id (s.updateConnection x.id AppSpawnConnection.take)
        (x.incompleteMsg.map (·.1)) (env.received lib shellUid x buffer).rounds env.dispatch) :
    Owned [] (receiveRequest k lib shellUid env s x buffer) := by
  unfold Appspawn.receiveRequest
  split
  · next hlen =>
    have htaken : Owned ((x.incompleteMsg.map (·.1)).toList ++ [])
        (s.updateConnection x.id AppSpawnConnection.take) := by
      refine h.exchange hx (fun _ => rfl) ?_
      rw [show x.take.node = [] from rfl, List.append_nil, List.append_nil]
      exact List.Perm.refl _
    have hrun := runRounds _ _ _ env.dispatch htaken (rounds_ne_nil hlen)
      ⟨x.take, List.mem_map.mpr ⟨x, hx, if_pos rfl⟩, rfl, rfl⟩
      (onReceiveRequest_wellShaped lib _ env.beyond x.receiverCtx buffer) (hok hlen)
    simp only
    split
    · exact hrun.closeTask x.id
    · exact hrun.startTimerForCheckMsg env x.id
  · exact h.closeTask x.id

end Owned

/-! ## Whole runs -/

/-- A message that comes in is disposed of: the uid check passes, it is no
MSG_UPDATE_MOUNT_POINTS, and no node is rebuilt for it. -/
def Disposed (k : Codes) (lib : MsgLib) (shellUid : Nat) (s : Server) : ServiceEvent → Prop
  | .receive c buffer env => ∀ x ∈ s.connectionOf c, buffer.length < lib.maxMsgTotalLength →
    RoundsDispose k lib x.id (s.updateConnection x.id AppSpawnConnection.take)
      (x.incompleteMsg.map (·.1)) (env.received lib shellUid x buffer).rounds env.dispatch
  | _ => True

instance (shellUid : Nat) (s : Server) (e : ServiceEvent) :
    Decidable (Disposed k lib shellUid s e) :=
  match e with
  | .receive c buffer _ =>
    inferInstanceAs (Decidable (∀ x ∈ s.connectionOf c, buffer.length < _ → RoundsDispose ..))
  | .receiveTimeout _ => .isTrue trivial
  | .loop _ => .isTrue trivial

namespace Owned

theorem processChildResponse (h : Owned locals s) {ctx : AppSpawningCtx}
    (hc : ctx ∈ s.appSpawnQueue) (bytes : Option (List UInt8)) (added : Bool) :
    Owned locals (processChildResponse s bytes added ctx) := by
  by_cases hr : readResult bytes = 0
  · have hu := h.use (h.not_released_context hc)
    rw [processChildResponse_of_eq hr]
    split
    · have ha : Owned locals ((s.use ctx.message.id).addSpawnedProcess ctx) :=
        hu.congr rfl rfl rfl rfl (Nat.le_refl _) rfl
      exact ha.answer hc _ _
    · exact hu.answer hc _ _
  · exact h.effects (effects_processChildResponse hc hr added)

theorem onConnection (h : Owned locals s) (cred : Option Nat) (dev : Bool) :
    Owned locals (onConnection s cred dev) := by
  unfold Appspawn.onConnection
  split
  · exact h
  · next uid =>
    split
    · constructor
      · have hi : Server.incomplete { s with
            nextId := s.nextId + 1
            connections := s.connections ++ [{ id := s.nextId, peerUid := some uid }] }
            = s.incomplete := by
          simp [Server.incomplete, AppSpawnConnection.node]
        rw [hi]
        exact h.custody
      · exact fun n hn => Nat.lt_succ_of_lt (h.numbered n hn)
      · rw [List.map_append]
        refine List.nodup_append.mpr ⟨h.connections, List.nodup_singleton _, ?_⟩
        rintro i hi j hj rfl
        obtain ⟨x, hx, rfl⟩ := List.mem_map.mp hi
        have hlt := h.connNumbered x hx
        rw [List.map_singleton, List.mem_singleton] at hj
        exact absurd hj (Nat.ne_of_lt hlt)
      · intro x hx
        rcases List.mem_append.mp hx with hx | hx
        · exact Nat.lt_succ_of_lt (h.connNumbered x hx)
        · rw [List.mem_singleton.mp hx]
          exact Nat.lt_succ_self _
      · exact h.noStale
    · exact h

/-- Every event of the loop but a message that comes in. -/
theorem step (h : Owned [] s) {e : Event} (he : ∀ c msg env, e ≠ .spawnRequest c msg env) :
    Owned [] (s.step k e) := by
  cases e with
  | connection cred dev => exact h.onConnection cred dev
  | spawnRequest c msg env => exact absurd rfl (he c msg env)
  | childResponse n bytes added =>
    simp only [Server.step]
    split
    · exact h
    · next ctx hf => exact h.processChildResponse (List.mem_of_find?_eq_some hf) bytes added
  | childTimeout n =>
    simp only [Server.step]
    split
    · exact h
    · next ctx hf => exact h.effects (effects_waitChildTimeout k (List.mem_of_find?_eq_some hf))
  | signal sig => exact h.effects (effects_processSignal k s sig)
  | close c => exact h.closeTask c
  | sendComplete pid failed => exact h.effects (effects_sendMessageComplete s pid failed)

theorem serve (h : Owned [] s) {shellUid : Nat} {e : ServiceEvent} (he : s.Serves e)
    (hok : Disposed k lib shellUid s e) : Owned [] (s.serve k lib shellUid e) := by
  cases e with
  | receive c buffer env =>
    simp only [Server.serve]
    split
    · exact h
    · next x hf => exact h.receiveRequest (List.mem_of_find?_eq_some hf) (hok x hf)
  | receiveTimeout c =>
    simp only [Server.serve]
    split
    · exact h
    · next x hf =>
      have hd : Owned [] ((deleteIncompleteMsg s x).updateConnection x.id AppSpawnConnection.take) :=
        h.dropIncomplete (List.mem_of_find?_eq_some hf) (fun _ => rfl) rfl
      exact hd.closeTask x.id
  | loop e =>
    refine h.step (fun c msg env heq => ?_)
    subst heq
    exact he

theorem of_init (h : (system k).init s) : Owned [] s := by
  obtain ⟨content, nwebspawn, -, -, rfl⟩ := h
  refine ⟨Custody.empty, fun n hn => ?_, List.nodup_nil, fun x hx => ?_, rfl⟩
  · cases hn
  · cases hx

end Owned

/-- Each node that was created was released once or has one owner, a connection or a context, and
no node was used behind its release. -/
structure OwnedOnce (s : Server) : Prop where
  once : ∀ n ∈ s.created, s.released.count n + s.incomplete.count n + s.inContexts.count n = 1
  created : ∀ n, n ∈ s.released ∨ n ∈ s.incomplete ∨ n ∈ s.inContexts → n ∈ s.created
  noStale : s.staleUses = []

theorem Owned.once (h : Owned [] s) : OwnedOnce s where
  once n hn := by
    have hc := h.custody.count_eq_one hn
    rw [List.nil_append, List.count_append] at hc
    omega
  created n hn := by
    refine h.custody.perm.subset (List.mem_append.mpr ?_)
    rcases hn with hn | hn | hn
    · exact Or.inl hn
    · exact Or.inr (List.mem_append_left _ hn)
    · exact Or.inr (List.mem_append_right _ hn)
  noStale := h.noStale

/-- **In every run in which each message is disposed of, each node is released once or has one
owner, at every time.** -/
theorem owned_once {shellUid : Nat}
    (h : ((service k lib shellUid).restrict (Disposed k lib shellUid)).Reachable s) :
    OwnedOnce s := by
  refine Owned.once (h.invariant (I := Owned []) ?_ ?_)
  · exact fun s hi => Owned.of_init hi
  · rintro s e hI ⟨he, hok⟩
    exact Owned.serve hI he.2 hok

/-- A library for messages of four bytes, the first of which is the type. -/
def tagLib : MsgLib where
  maxMsgTotalLength := 1024
  maxMsgTotalLength_le := by decide
  getAppSpawnMsgFromBuffer range held msgRecvLen :=
    .ok (held.getD [] ++ range.take 4) (msgRecvLen + min range.length 4) (range.length - 4)
  view m :=
    { msgType := match m.head? with
        | some 1 => .updateMountPoints
        | some 2 => .begetCmd
        | _ => .appSpawn
      msgLen := 4
      msgId := 1
      processName := "app"
      begetPid := some 100 }
  decodeAppSpawnMsg _ := 0

/-- A buffer of the connection 1. -/
def sampleReceive (buffer : List UInt8) (env : DispatchEnv) : ServiceEvent :=
  .receive 1 buffer { dispatch := [env] }

instance (shellUid : Nat) (s : Server) (e : ServiceEvent) :
    Decidable (((service k lib shellUid).restrict (Disposed k lib shellUid)).enabled s e) :=
  inferInstanceAs (Decidable (_ ∧ _))

/-- A message comes in two buffers and its child is started and answers. -/
theorem owned_once_run : ∃ t, ((service sampleCodes tagLib 2000).restrict
    (Disposed sampleCodes tagLib 2000)).Reachable t ∧ t.released = [2] ∧ OwnedOnce t :=
  have hr : ((service sampleCodes tagLib 2000).restrict
      (Disposed sampleCodes tagLib 2000)).Reachable _ :=
    ⟨sampleLaunch, [.loop (.connection (some 0) false), sampleReceive [0, 0] {},
        sampleReceive [0, 0] { spawn := sampleEnv },
        .loop (.childResponse 2 (some [0, 0, 0, 0]) true)],
      ⟨_, _, by decide, by decide, rfl⟩, System.Run.of_enabledAll (by decide +kernel)⟩
  ⟨_, hr, by decide +kernel, owned_once hr⟩

/-- The service after these events. -/
def sampleServe (es : List ServiceEvent) : Server :=
  es.foldl (fun s e => s.serve sampleCodes tagLib 2000 e) sampleLaunch

theorem sampleServe_reachable (es : List ServiceEvent)
    (h : (service sampleCodes tagLib 2000).EnabledAll sampleLaunch es) :
    (service sampleCodes tagLib 2000).Reachable (sampleServe es) :=
  ⟨sampleLaunch, es, ⟨_, _, by decide, by decide, rfl⟩, System.Run.of_enabledAll h⟩

/-- MSG_UPDATE_MOUNT_POINTS is answered. -/
def mountPointsRun : List ServiceEvent :=
  [.loop (.connection (some 0) false), sampleReceive [1, 0, 0, 0] {}]

/-- The shell sends a spawn request. -/
def shellRun : List ServiceEvent :=
  [.loop (.connection (some 2000) true), sampleReceive [0, 0, 0, 0] {}]

/-- A tracked child is rebuilt for a beget command, and its spawn is started. -/
def begetRun : List ServiceEvent :=
  [.loop (.connection (some 0) false), sampleReceive [0, 0, 0, 0] { spawn := sampleEnv },
    .loop (.childResponse 2 (some [0, 0, 0, 0]) true),
    sampleReceive [2, 0, 0, 0] { rebuilt := some sampleMsg, spawn :=
      { sampleEnv with developerMode := true, fork := some 101 } }]

/-- The first two runs forget a node, and the third releases a node that a context owns. -/
theorem three_ways_to_lose :
    (∃ t, (service sampleCodes tagLib 2000).Reachable t ∧ t = sampleServe mountPointsRun ∧
      ¬ OwnedOnce t) ∧
    (∃ t, (service sampleCodes tagLib 2000).Reachable t ∧ t = sampleServe shellRun ∧
      ¬ OwnedOnce t) ∧
    ∃ t, (service sampleCodes tagLib 2000).Reachable t ∧ t = sampleServe begetRun ∧
      ¬ OwnedOnce t := by
  refine ⟨⟨_, sampleServe_reachable mountPointsRun (by decide +kernel), rfl, fun h => ?_⟩,
    ⟨_, sampleServe_reachable shellRun (by decide +kernel), rfl, fun h => ?_⟩,
    ⟨_, sampleServe_reachable begetRun (by decide +kernel), rfl, fun h => ?_⟩⟩
  · exact absurd (h.once 2 (by decide +kernel)) (by decide +kernel)
  · exact absurd (h.once 2 (by decide +kernel)) (by decide +kernel)
  · exact absurd (h.once 7 (by decide +kernel)) (by decide +kernel)

end Appspawn
