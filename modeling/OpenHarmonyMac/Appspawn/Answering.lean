import OpenHarmonyMac.Appspawn.Effects
import OpenHarmonyMac.Infra.Ledger

/-!
# One answer per spawn request

The server is a ledger of requests: a context in the queue is a pending request, `SendResponse`
with `DeleteAppSpawningCtx` answers it, and a close drops what is pending for the connection.

* `simulates_ledger` — a run of the server is a run of the ledger
* `OneResponse` — the law of the answers, which holds in every reachable state
-/

namespace Appspawn

open Infra

/-- The ledger that the server keeps. -/
def Server.ledger (s : Server) : Ledger ConnId NodeId where
  opened := s.connections.map (·.id)
  accepted := s.requests
  pending := s.appSpawnQueue.map (fun ctx => (ctx.message.connection, ctx.message.id))
  answers := s.sent.map (fun r =>
    { client := r.connection, request := r.message, toOpen := r.connOpen })

variable {k : Codes} {s s' s'' : Server}

theorem isOpen_eq_decide (s : Server) (c : ConnId) : s.isOpen c = decide (c ∈ s.ledger.opened) := by
  rw [Bool.eq_iff_iff]
  simp [Server.isOpen, Server.ledger]

theorem isOpen_iff {c : ConnId} : s.isOpen c = true ↔ c ∈ s.ledger.opened := by
  rw [isOpen_eq_decide, decide_eq_true_iff]

theorem mem_pending {ctx : AppSpawningCtx} (h : ctx ∈ s.appSpawnQueue) :
    (ctx.message.connection, ctx.message.id) ∈ s.ledger.pending :=
  List.mem_map.mpr ⟨ctx, h, rfl⟩

/-! ## What the functions of the server do to the ledger -/

section

variable (s)

theorem ledger_answer (ctx : AppSpawningCtx) (result pid : Int) :
    (s.answer ctx result pid).ledger
      = s.ledger.act (.answer ctx.message.connection ctx.message.id) := by
  have hopen := isOpen_eq_decide s ctx.message.connection
  simp only [Server.ledger] at hopen
  simp only [Server.answer, Server.sendResponse, Server.deleteAppSpawningCtx, Server.use,
    Server.ledger, Ledger.act, List.map_cons, hopen, Ledger.mk.injEq, true_and, and_true]
  rw [List.filter_map]
  congr 1
  refine List.filter_congr (fun x _ => ?_)
  simp only [bne, Function.comp_apply, decide_not, beq_eq_decide]

end

/-! ## Handlers that only answer -/

/-- From `s` to `s'` nothing happens to the ledger but answers. -/
structure Settles (s s' : Server) : Prop where
  nextId : s'.nextId = s.nextId
  opened : s'.ledger.opened = s.ledger.opened
  accepted : s'.ledger.accepted = s.ledger.accepted
  run : ∃ as, (Ledger.system ConnId NodeId).Run s.ledger as s'.ledger

theorem Settles.of_eq (hn : s'.nextId = s.nextId) (hl : s'.ledger = s.ledger) : Settles s s' where
  nextId := hn
  opened := by rw [hl]
  accepted := by rw [hl]
  run := ⟨[], by rw [hl]; exact System.Run.nil _⟩

theorem Settles.refl (s : Server) : Settles s s := Settles.of_eq rfl rfl

theorem Settles.trans (h : Settles s s') (h' : Settles s' s'') : Settles s s'' where
  nextId := h'.nextId.trans h.nextId
  opened := h'.opened.trans h.opened
  accepted := h'.accepted.trans h.accepted
  run := by
    obtain ⟨as, ha⟩ := h.run
    obtain ⟨as', ha'⟩ := h'.run
    exact ⟨as ++ as', ha.append ha'⟩

theorem Settles.answer {ctx : AppSpawningCtx} (h : ctx ∈ s.appSpawnQueue) (result pid : Int) :
    Settles s (s.answer ctx result pid) where
  nextId := rfl
  opened := by rw [ledger_answer]; rfl
  accepted := by rw [ledger_answer]; rfl
  run := by
    rw [ledger_answer]
    exact ⟨[.answer ctx.message.connection ctx.message.id],
      System.Run.cons (mem_pending h) (System.Run.nil _)⟩

theorem Settles.then_answer {ctx : AppSpawningCtx} (h : Settles s s')
    (hc : ctx ∈ s'.appSpawnQueue) (result pid : Int) : Settles s (s'.answer ctx result pid) :=
  h.trans (Settles.answer hc result pid)

theorem Settles.of_effects (h : Effects s s') : Settles s s' := by
  induction h with
  | refl => exact Settles.refl s
  | tail _ he ih =>
    refine ih.trans ?_
    cases he with
    | answer ctx result pid hc _ => exact Settles.answer hc result pid
    | _ => exact Settles.of_eq rfl rfl

theorem settles_processChildResponse {ctx : AppSpawningCtx} (h : ctx ∈ s.appSpawnQueue)
    (bytes : Option (List UInt8)) (added : Bool) :
    Settles s (processChildResponse s bytes added ctx) := by
  by_cases hr : readResult bytes = 0
  · rw [processChildResponse_of_eq hr]
    cases added with
    | true =>
      have ha : Settles s ((s.use ctx.message.id).addSpawnedProcess ctx) := Settles.of_eq rfl rfl
      exact ha.then_answer h 0 ctx.pid
    | false =>
      have hu : Settles s (s.use ctx.message.id) := Settles.of_eq rfl rfl
      exact hu.then_answer h 0 ctx.pid
  · exact Settles.of_effects (effects_processChildResponse h hr added)

/-! ## The start of a request, and its end with the connection -/

/-- Every identity in use is older than the counter. -/
structure Numbered (s : Server) : Prop where
  opened : ∀ c ∈ s.ledger.opened, c < s.nextId
  accepted : ∀ p ∈ s.ledger.accepted, p.1 < s.nextId ∧ p.2 < s.nextId

theorem Settles.numbered (h : Settles s s') (hn : Numbered s) : Numbered s' where
  opened := by rw [h.opened, h.nextId]; exact hn.opened
  accepted := by rw [h.accepted, h.nextId]; exact hn.accepted

theorem ledger_refuse {c : ConnId} {m : AppSpawnMsgNode} (result : Int)
    (h : ∀ p ∈ s.ledger.pending, p.2 ≠ m.id) :
    ((s.noteRequest c m.id).refuse c m result).ledger
      = (s.ledger.act (.accept c m.id)).act (.answer c m.id) := by
  have hopen := isOpen_eq_decide s c
  simp only [Server.ledger] at hopen h
  simp only [Server.refuse, Server.noteRequest, Server.sendResponse, Server.deleteAppSpawnMsg,
    Server.use, Server.ledger, Ledger.act, List.map_cons, Server.isOpen] at hopen ⊢
  rw [hopen, List.filter_append, List.filter_eq_self.mpr (fun p hp => decide_eq_true (h p hp))]
  simp

theorem ledger_spawned (r : Started) (ctx : AppSpawningCtx) {c : ConnId} {n : NodeId}
    (hc : ctx.message.connection = c) (hn : ctx.message.id = n) :
    ((s.noteRequest c n).spawned r ctx).ledger = s.ledger.act (.accept c n) := by
  simp [Server.spawned, Server.noteRequest, Server.ledger, Ledger.act, hc, hn]

/-- A child that was started waits for its answer, or is answered at once. -/
theorem settles_startChild (env : SpawnEnv) (s : Server) (client : AppSpawnClient)
    (m : AppSpawnMsgNode) :
    Settles (s.spawned (started k env s client m) (spawningCtx (started k env s client m) client m))
      (startChild k env s client m) := by
  simp only [startChild]
  generalize started k env s client m = r
  have hmem : spawningCtx r client m ∈ (s.spawned r (spawningCtx r client m)).appSpawnQueue :=
    List.mem_append_right _ List.mem_cons_self
  split
  · exact Settles.answer hmem _ _
  · split
    · have hk : Settles (s.spawned r (spawningCtx r client m))
          ((s.spawned r (spawningCtx r client m)).kill r.childPid SIGKILL) := Settles.of_eq rfl rfl
      exact hk.then_answer hmem _ _
    · exact Settles.refl _

/-- From `s` to `s'` the request `n` of `c` is accepted, and perhaps answered. -/
structure Accepts (s s' : Server) (c : ConnId) (n : NodeId) : Prop where
  nextId : s.nextId ≤ s'.nextId
  opened : s'.ledger.opened = s.ledger.opened
  accepted : s'.ledger.accepted = (c, n) :: s.ledger.accepted
  run : ∃ as, (Ledger.system ConnId NodeId).Run s.ledger as s'.ledger

theorem accepts_processSpawnReqMsg (env : SpawnEnv) {c : ConnId} {m : AppSpawnMsgNode}
    (hopen : c ∈ s.ledger.opened) (hfresh : ∀ p ∈ s.ledger.accepted, p.2 ≠ m.id)
    (hs : s.ledger.Sound) : Accepts s (processSpawnReqMsg k env s c m) c m.id := by
  have hpend : ∀ p ∈ s.ledger.pending, p.2 ≠ m.id := fun p hp =>
    hfresh p (hs.pending_accepted p hp)
  have haccept : (Ledger.system ConnId NodeId).Run s.ledger [.accept c m.id]
      (s.ledger.act (.accept c m.id)) :=
    System.Run.cons ⟨hopen, hfresh⟩ (System.Run.nil _)
  have hrefuse : ∀ result, Accepts s (((s.use m.id).noteRequest c m.id).refuse c m result) c
      m.id := by
    intro result
    have hl := ledger_refuse (s := s.use m.id) (c := c) (m := m) result hpend
    refine ⟨by simp, by rw [hl]; rfl, by rw [hl]; rfl, [.accept c m.id] ++ [.answer c m.id], ?_⟩
    rw [hl]
    exact haccept.snoc (List.mem_append_right _ List.mem_cons_self)
  simp only [processSpawnReqMsg]
  split
  · exact hrefuse _
  · split
    · exact hrefuse _
    · next client _ =>
      have h := settles_startChild (k := k) env ((s.use m.id).noteRequest c m.id) client
        (spawnMessage env c m)
      have hl := ledger_spawned (s := s.use m.id) (c := c) (n := m.id)
        (started k env ((s.use m.id).noteRequest c m.id) client (spawnMessage env c m))
        (spawningCtx (started k env ((s.use m.id).noteRequest c m.id) client
          (spawnMessage env c m)) client (spawnMessage env c m)) rfl rfl
      obtain ⟨as, hr⟩ := h.run
      rw [hl] at hr
      refine ⟨?_, ?_, ?_, _, haccept.append hr⟩
      · simp [h.nextId]
      · rw [h.opened, hl]
        rfl
      · rw [h.accepted, hl]
        rfl

/-! ## The close of a connection -/

theorem Sound.eq_of_id {l : Ledger ConnId NodeId} (h : l.Sound) {p q : ConnId × NodeId}
    (hp : p ∈ l.pending) (hq : q ∈ l.pending) (he : p.2 = q.2) : p = q :=
  List.inj_on_of_nodup_map h.accepted_nodup (h.pending_accepted p hp) (h.pending_accepted q hq) he

theorem ledger_updateConnection (s : Server) (c : ConnId)
    (f : AppSpawnConnection → AppSpawnConnection) (hf : ∀ x, (f x).id = x.id) :
    (s.updateConnection c f).ledger = s.ledger := by
  simp only [Server.updateConnection, Server.ledger, List.map_map, Ledger.mk.injEq, and_true]
  refine List.map_congr_left (fun x _ => ?_)
  simp only [Function.comp_apply]
  split
  · exact hf x
  · rfl

theorem ledger_deleteIncompleteMsg (s : Server) (conn : AppSpawnConnection) :
    (deleteIncompleteMsg s conn).ledger = s.ledger := by
  unfold deleteIncompleteMsg
  split <;> rfl

/-- A traversal of the whole queue for `c` drops what is pending for `c`. -/
theorem ledger_traversal (hs : s.ledger.Sound) (c : ConnId) :
    (s.appSpawnQueue.foldl (appSpawningCtxOnClose c) s).ledger
      = { s.ledger with pending := s.ledger.pending.filter (fun p => p.1 ≠ c) } := by
  obtain ⟨released, kills, stale, he⟩ := foldl_onClose c s.appSpawnQueue s
  rw [he]
  simp only [Server.ledger, Ledger.mk.injEq, true_and, and_true]
  rw [List.filter_map]
  congr 1
  refine List.filter_congr (fun x hx => ?_)
  rw [Bool.eq_iff_iff]
  simp only [List.all_eq_true, Function.comp_apply, Bool.or_eq_true, bne_iff_ne,
    decide_eq_true_eq]
  constructor
  · intro h
    rcases h x hx with h | h
    · exact h
    · exact absurd rfl h
  · intro h y hy
    by_cases hid : x.message.id = y.message.id
    · have hxy := Sound.eq_of_id hs (mem_pending hx) (mem_pending hy) hid
      rw [← (Prod.mk.inj hxy).1]
      exact Or.inl h
    · exact Or.inr hid

theorem ledger_onClose (hs : s.ledger.Sound) (c : ConnId) :
    (onClose s c).ledger
      = { s.ledger with pending := s.ledger.pending.filter (fun p => p.1 ≠ c) } := by
  unfold onClose
  split
  · next hnone =>
    have hnot : c ∉ s.ledger.opened := by
      simpa [Server.ledger] using List.find?_eq_none.mp hnone
    rw [List.filter_eq_self.mpr]
    intro p hp
    refine decide_eq_true (fun he => hnot ?_)
    exact he ▸ hs.pending_opened p hp
  · next conn _ =>
    simp only
    have hl : ((deleteIncompleteMsg s conn).updateConnection c AppSpawnConnection.onClose).ledger
        = s.ledger :=
      (ledger_updateConnection _ c AppSpawnConnection.onClose (fun _ => rfl)).trans
        (ledger_deleteIncompleteMsg s conn)
    rw [ledger_traversal (hl ▸ hs), hl]

/-- A close is a disconnect. -/
theorem ledger_closeTask (hs : s.ledger.Sound) (c : ConnId) :
    (closeTask s c).ledger = s.ledger.act (.disconnect c) := by
  have h := ledger_onClose hs c
  simp only [Server.ledger, Ledger.mk.injEq] at h
  simp only [closeTask, Server.ledger, Ledger.act, Ledger.mk.injEq]
  obtain ⟨ho, ha, hp, hn⟩ := h
  refine ⟨?_, ha, hp, hn⟩
  rw [← ho, List.filter_map]
  congr 1
  refine List.filter_congr (fun x _ => ?_)
  simp only [bne, Function.comp_apply, decide_not, beq_eq_decide]

/-! ## The server is a ledger -/

theorem Accepts.numbered {c : ConnId} {n : NodeId} (h : Accepts s s' c n) (hn : Numbered s)
    (hopen : c ∈ s.ledger.opened) (hlt : n < s'.nextId) : Numbered s' where
  opened d hd := by
    rw [h.opened] at hd
    exact Nat.lt_of_lt_of_le (hn.opened d hd) h.nextId
  accepted p hp := by
    rw [h.accepted] at hp
    rcases List.mem_cons.mp hp with rfl | hp
    · exact ⟨Nat.lt_of_lt_of_le (hn.opened c hopen) h.nextId, hlt⟩
    · obtain ⟨h₁, h₂⟩ := hn.accepted p hp
      exact ⟨Nat.lt_of_lt_of_le h₁ h.nextId, Nat.lt_of_lt_of_le h₂ h.nextId⟩

theorem simulates_onConnection (hn : Numbered s) (cred : Option Nat) (dev : Bool) :
    Numbered (onConnection s cred dev) ∧
      ∃ as, (Ledger.system ConnId NodeId).Run s.ledger as (onConnection s cred dev).ledger := by
  unfold onConnection
  split
  · exact ⟨hn, [], System.Run.nil _⟩
  · next uid =>
    split
    · have hl : ({ s with
          nextId := s.nextId + 1
          connections := s.connections ++ [{ id := s.nextId, peerUid := some uid }] } :
            Server).ledger = s.ledger.act (.connect s.nextId) := by
        simp [Server.ledger, Ledger.act]
      refine ⟨⟨fun c hc => ?_, fun p hp => ?_⟩, [.connect s.nextId], ?_⟩
      · rw [hl] at hc
        rcases List.mem_append.mp hc with hc | hc
        · exact Nat.lt_succ_of_lt (hn.opened c hc)
        · rw [List.mem_singleton.mp hc]
          exact Nat.lt_succ_self _
      · obtain ⟨h₁, h₂⟩ := hn.accepted p hp
        exact ⟨Nat.lt_succ_of_lt h₁, Nat.lt_succ_of_lt h₂⟩
      · rw [hl]
        refine System.Run.cons ⟨fun hc => ?_, fun p hp => ?_⟩ (System.Run.nil _)
        · exact Nat.lt_irrefl _ (hn.opened _ hc)
        · exact Nat.ne_of_lt (hn.accepted p hp).1
    · exact ⟨hn, [], System.Run.nil _⟩

theorem accepts_spawnRequest {c : ConnId} (msg : AppSpawnMsg) (env : SpawnEnv)
    (hs : s.ledger.Sound) (hn : Numbered s) (hc : s.isOpen c = true) :
    Accepts s.createAppSpawnMsg (s.step k (.spawnRequest c msg env)) c s.nextId :=
  accepts_processSpawnReqMsg (m := { id := s.nextId, msg }) env (isOpen_iff.mp hc)
    (fun p hp => Nat.ne_of_lt (hn.accepted p hp).2) hs

/-- Every event but three kinds only answers. -/
theorem settles_step (k : Codes) (s : Server) (e : Event) : Settles s (s.step k e) ∨
    (∃ cred dev, e = .connection cred dev) ∨ (∃ c msg env, e = .spawnRequest c msg env) ∨
      ∃ c, e = .close c := by
  cases e with
  | connection cred dev => exact Or.inr (Or.inl ⟨cred, dev, rfl⟩)
  | spawnRequest c msg env => exact Or.inr (Or.inr (Or.inl ⟨c, msg, env, rfl⟩))
  | close c => exact Or.inr (Or.inr (Or.inr ⟨c, rfl⟩))
  | childResponse n bytes added =>
    left
    simp only [Server.step]
    split
    · exact Settles.refl s
    · next ctx hf => exact settles_processChildResponse (List.mem_of_find?_eq_some hf) bytes added
  | childTimeout n =>
    left
    simp only [Server.step]
    split
    · exact Settles.refl s
    · next ctx hf =>
      exact Settles.of_effects (effects_waitChildTimeout k (List.mem_of_find?_eq_some hf))
  | signal sig => exact Or.inl (Settles.of_effects (effects_processSignal k s sig))
  | sendComplete pid failed =>
    exact Or.inl (Settles.of_effects (effects_sendMessageComplete s pid failed))

theorem simulates_step {e : Event} (hI : s.ledger.Sound ∧ Numbered s)
    (he : (system k).enabled s e) :
    Numbered (s.step k e) ∧
      ∃ as, (Ledger.system ConnId NodeId).Run s.ledger as (s.step k e).ledger := by
  obtain ⟨hs, hn⟩ := hI
  rcases settles_step k s e with h | ⟨cred, dev, rfl⟩ | ⟨c, msg, env, rfl⟩ | ⟨c, rfl⟩
  · exact ⟨h.numbered hn, h.run⟩
  · exact simulates_onConnection hn cred dev
  · have h := accepts_spawnRequest (k := k) msg env hs hn he.2.1
    have hn' : Numbered s.createAppSpawnMsg :=
      ⟨fun d hd => Nat.lt_succ_of_lt (hn.opened d hd), fun p hp =>
        ⟨Nat.lt_succ_of_lt (hn.accepted p hp).1, Nat.lt_succ_of_lt (hn.accepted p hp).2⟩⟩
    exact ⟨h.numbered hn' (isOpen_iff.mp he.2.1) h.nextId, h.run⟩
  · have hl := ledger_closeTask hs c
    have hnext : (closeTask s c).nextId = s.nextId := by
      obtain ⟨_, _, _, _, _, heq, -⟩ := closeTask_eq s c
      rw [heq]
    simp only [Server.step]
    refine ⟨⟨fun d hd => ?_, fun p hp => ?_⟩, [.disconnect c], ?_⟩
    · rw [hl] at hd
      rw [hnext]
      exact hn.opened d (List.mem_filter.mp hd).1
    · rw [hl] at hp
      rw [hnext]
      exact hn.accepted p hp
    · rw [hl]
      exact System.Run.cons trivial (System.Run.nil _)

/-- A run of the server is a run of the ledger. -/
theorem simulates_ledger {es : List Event} (hr : (system k).Run s es s')
    (hI : s.ledger.Sound ∧ Numbered s) :
    (s'.ledger.Sound ∧ Numbered s') ∧
      ∃ as, (Ledger.system ConnId NodeId).Run s.ledger as s'.ledger := by
  refine hr.simulates (I := fun s => s.ledger.Sound ∧ Numbered s) Server.ledger ?_ hI
  intro s e hI he
  obtain ⟨hn, as, ha⟩ := simulates_step hI he
  exact ⟨⟨hI.1.run ha, hn⟩, as, ha⟩

theorem sound_of_reachable (h : (system k).Reachable s) : s.ledger.Sound ∧ Numbered s := by
  obtain ⟨s₀, es, ⟨content, nwebspawn, -, -, rfl⟩, hr⟩ := h
  refine (simulates_ledger hr ⟨Ledger.Sound.empty, ⟨?_, ?_⟩⟩).1
  · intro c hc
    cases hc
  · intro p hp
    cases hp

/-! ## The law of the answers -/

/-- The responses sent for the request `n`. -/
def Server.responsesTo (s : Server) (n : NodeId) : List Response :=
  s.sent.filter (fun r => r.message = n)

/-- The request `n` has a context in the queue. -/
def Server.IsPending (s : Server) (n : NodeId) : Prop :=
  ∃ ctx ∈ s.appSpawnQueue, ctx.message.id = n

structure OneResponse (s : Server) : Prop where
  atMostOne : ∀ n, (s.responsesTo n).length ≤ 1
  /-- A request that is through has its response, if its connection is open. -/
  settled : ∀ c n, (c, n) ∈ s.requests → s.isOpen c = true → ¬ s.IsPending n →
    (s.responsesTo n).length = 1
  onOpen : ∀ r ∈ s.sent, r.connOpen = true
  ownConnection : ∀ r ∈ s.sent, (r.connection, r.message) ∈ s.requests
  dequeued : ∀ r ∈ s.sent, ¬ s.IsPending r.message

theorem length_responsesTo (s : Server) (n : NodeId) :
    (s.ledger.answersTo n).length = (s.responsesTo n).length := by
  simp only [Ledger.answersTo, Server.ledger, List.filter_map, List.length_map,
    Server.responsesTo]
  rfl

theorem OneResponse.of_sound (h : s.ledger.Sound) : OneResponse s where
  atMostOne n := by
    rw [← length_responsesTo]
    exact h.length_le_one n
  settled c n hm ho hp := by
    rw [← length_responsesTo]
    refine h.length_eq_one (p := (c, n)) hm (isOpen_iff.mp ho) (fun hq => hp ?_)
    obtain ⟨ctx, hctx, he⟩ := List.mem_map.mp hq
    exact ⟨ctx, hctx, (Prod.mk.inj he).2⟩
  onOpen r hr := h.answers_toOpen _ (List.mem_map_of_mem hr)
  ownConnection r hr := h.answers_accepted _ (List.mem_map_of_mem hr)
  dequeued r hr := by
    rintro ⟨ctx, hctx, he⟩
    exact h.answers_settled _ (List.mem_map_of_mem hr) _ (mem_pending hctx) he

theorem length_responsesTo_of_mem (h : s.ledger.Sound) {r : Response} (hr : r ∈ s.sent) :
    (s.responsesTo r.message).length = 1 := by
  have hpos : 0 < (s.responsesTo r.message).length :=
    List.length_pos_of_mem (List.mem_filter.mpr ⟨hr, decide_eq_true rfl⟩)
  have hle := (OneResponse.of_sound h).atMostOne r.message
  omega

end Appspawn
