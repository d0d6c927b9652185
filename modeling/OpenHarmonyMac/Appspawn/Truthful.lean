import OpenHarmonyMac.Appspawn.Deciding

/-!
# When a success answer can be believed

A response with result 0 tells the client that its application runs. The value comes from the
child through its pipe; two places of the server make up a zero of their own. `ProcessSpawnReqMsg`
answers with `ret` when `AddChildWatcher` fails, and `ret` is 0 by then. `ProcessChildFdCheck`
takes the zero it put into `result` for the child's word when the `read` brings nothing.

* `truthful_iff` — the answers of a step are truthful exactly when it does neither
-/

namespace Appspawn

open Infra

variable {k : Codes} {s s' s'' : Server} {P : Response → Prop}

/-! ## The responses of a step -/

/-- From `s` to `s'` only responses with `P` are sent. -/
def Sends (P : Response → Prop) (s s' : Server) : Prop :=
  ∃ news, s'.sent = news ++ s.sent ∧ ∀ r ∈ news, P r

theorem Sends.of_eq (h : s'.sent = s.sent) : Sends P s s' :=
  ⟨[], h, fun _ hr => absurd hr List.not_mem_nil⟩

theorem Sends.trans (h : Sends P s s') (h' : Sends P s' s'') : Sends P s s'' := by
  obtain ⟨news, he, hp⟩ := h
  obtain ⟨news', he', hp'⟩ := h'
  refine ⟨news' ++ news, by rw [he', he, List.append_assoc], fun r hr => ?_⟩
  rcases List.mem_append.mp hr with hr | hr
  · exact hp' r hr
  · exact hp r hr

/-- The response of `SendResponse`. -/
def Server.response (s : Server) (c : ConnId) (m : AppSpawnMsgNode) (result pid : Int) :
    Response :=
  { connection := c, message := m.id, result, pid, connOpen := s.isOpen c }

theorem Sends.answer {ctx : AppSpawningCtx} {result pid : Int}
    (h : P (s.response ctx.message.connection ctx.message result pid)) :
    Sends P s (s.answer ctx result pid) :=
  ⟨[_], rfl, fun _ hr => List.mem_singleton.mp hr ▸ h⟩

theorem Sends.refuse {c : ConnId} {m : AppSpawnMsgNode} {result : Int}
    (h : P (s.response c m result 0)) : Sends P s (s.refuse c m result) :=
  ⟨[_], rfl, fun _ hr => List.mem_singleton.mp hr ▸ h⟩

/-- The response reports a failure. -/
def Response.Failure (r : Response) : Prop := r.result ≠ 0

theorem Sends.of_effects (h : Effects s s') : Sends Response.Failure s s' := by
  induction h with
  | refl => exact Sends.of_eq rfl
  | tail _ he ih =>
    refine ih.trans ?_
    cases he with
    | answer ctx result pid _ hr => exact Sends.answer hr
    | _ => exact Sends.of_eq rfl

theorem sent_closeTask (s : Server) (c : ConnId) : (closeTask s c).sent = s.sent := by
  obtain ⟨_, _, _, _, _, heq, -⟩ := closeTask_eq s c
  rw [heq]

/-! ## Truthful answers -/

/-- The responses that the event adds, the last one first. -/
def newResponses (k : Codes) (s : Server) (e : Event) : List Response :=
  (s.step k e).sent.take ((s.step k e).sent.length - s.sent.length)

/-- A success answer of the event is the complete value 0 which the child of the request wrote
on its pipe, and it carries the positive pid of that child. -/
def NoFalseSuccess (k : Codes) (s : Server) (e : Event) : Prop :=
  ∀ r ∈ newResponses k s e, r.result = 0 →
    ∃ ctx added, e = .childResponse r.message (some [0, 0, 0, 0]) added ∧
      s.contextOf r.message = some ctx ∧ r.pid = ctx.pid ∧ 0 < r.pid

/-- The answers of the event can be believed: no success but the child's, and a request that
the event decides or settles otherwise has its answer in it. -/
structure Truthful (k : Codes) (s : Server) (e : Event) : Prop where
  success : NoFalseSuccess k s e
  decided : ∀ n, Decides k s n e →
    ¬ (s.step k e).IsPending n ∧ ∃ r ∈ newResponses k s e, r.message = n
  answered : ∀ n, (s.IsPending n ∨ ∃ c msg env, e = .spawnRequest c msg env ∧ n = s.nextId) →
    ¬ (s.step k e).IsPending n → (∀ c, e ≠ .close c) → ∃ r ∈ newResponses k s e, r.message = n

/-- The event takes neither of the two ways to a zero that no child wrote: a child that is
started is also watched, and a `read` brings four bytes, or bytes that are not all zero. -/
def Heard (k : Codes) (s : Server) : Event → Prop
  | .spawnRequest c msg env =>
    ∀ client ∈ env.ctx, env.checkRet = 0 →
      env.Starts k s.content client (spawnMessage env c { id := s.nextId, msg }).msg → env.Watches
  | .childResponse _ bytes _ => ∃ b ∈ bytes, b.length = 4 ∨ ∃ x ∈ b, x ≠ 0
  | _ => True

theorem newResponses_eq {e : Event} (news : List Response)
    (h : (s.step k e).sent = news ++ s.sent) : newResponses k s e = news := by
  rw [newResponses, h, List.length_append, Nat.add_sub_cancel, List.take_left]

theorem newResponses_of_sends {e : Event} (h : Sends P s (s.step k e)) :
    ∀ r ∈ newResponses k s e, P r := by
  obtain ⟨news, he, hp⟩ := h
  rwa [newResponses_eq news he]

theorem NoFalseSuccess.of_effects {e : Event} (h : Effects s (s.step k e)) :
    NoFalseSuccess k s e :=
  fun r hr h0 => absurd h0 (newResponses_of_sends (Sends.of_effects h) r hr)

/-! ## The value on the pipe -/

theorem foldr_le32 (b : List UInt8) :
    b.foldr (fun x n => x.toNat + 256 * n) 0 < 256 ^ b.length ∧
      (b.foldr (fun x n => x.toNat + 256 * n) 0 = 0 ↔ ∀ x ∈ b, x = 0) := by
  induction b with
  | nil => simp
  | cons y b ih =>
    obtain ⟨hlt, hz⟩ := ih
    have hy : y.toNat < 256 := y.toNat_lt
    rw [List.foldr_cons, List.length_cons, Nat.pow_succ]
    refine ⟨by omega, ?_⟩
    rw [List.forall_mem_cons, ← hz, ← UInt8.toNat_inj]
    simp only [UInt8.toNat_zero]
    omega

theorem le32_eq_zero {b : List UInt8} (h : b.length ≤ 4) : le32 b = 0 ↔ ∀ x ∈ b, x = 0 := by
  obtain ⟨hlt, hz⟩ := foldr_le32 b
  have hbound : b.foldr (fun x n => x.toNat + 256 * n) 0 < 2 ^ 32 :=
    calc b.foldr (fun x n => x.toNat + 256 * n) 0 < 256 ^ b.length := hlt
      _ ≤ 256 ^ 4 := Nat.pow_le_pow_right (by decide) h
      _ = 2 ^ 32 := by decide
  rw [le32, List.take_of_length_le h, ← hz, BitVec.toInt, BitVec.toNat_ofNat,
    Nat.mod_eq_of_lt hbound]
  split
  · omega
  · omega

/-- Four bytes, none of them set, or nothing at all: both read as 0. -/
theorem readResult_eq_zero {bytes : Option (List UInt8)} (h : ∀ b ∈ bytes, b.length ≤ 4) :
    readResult bytes = 0 ↔ ∀ b ∈ bytes, ∀ x ∈ b, x = 0 := by
  cases bytes with
  | none => simp [readResult, le32]
  | some b =>
    simp only [readResult, Option.getD_some, Option.mem_def, Option.some.injEq, forall_eq']
    exact le32_eq_zero (h b rfl)

/-! ## The law -/

/-- A zero that is not the answer of a child is not truthful. -/
theorem not_noFalseSuccess {e : Event} {r : Response} (hr : r ∈ newResponses k s e) (h0 : r.result = 0)
    (he : ∀ n bytes added, e ≠ .childResponse n bytes added) : ¬ NoFalseSuccess k s e := by
  intro ht
  obtain ⟨ctx, added, heq, -⟩ := ht r hr h0
  exact he _ _ _ heq

/-- A child that is not started is answered with the error, a child that is watched waits. -/
theorem sends_startChild (env : SpawnEnv) (t : Server) (client : AppSpawnClient)
    (m : AppSpawnMsgNode) (h : (started k env t client m).ret = 0 → env.Watches) :
    Sends Response.Failure t (startChild k env t client m) := by
  rw [startChild_eq k env t client m rfl rfl]
  generalize started k env t client m = r at h ⊢
  have hs : Sends Response.Failure t (t.spawned r (spawningCtx r client m)) := Sends.of_eq rfl
  by_cases hr : r.ret = 0
  · rw [if_neg (not_not_intro hr), if_neg (not_not_intro (addChildWatcher_eq_zero env |>.mpr (h hr)))]
    exact hs
  · rw [if_pos hr]
    exact hs.trans (Sends.answer hr)

/-- A child that is started and not watched is answered with 0. -/
theorem sent_startChild (env : SpawnEnv) (t : Server) (client : AppSpawnClient)
    (m : AppSpawnMsgNode) (hr : (started k env t client m).ret = 0) (hw : ¬ env.Watches) :
    (startChild k env t client m).sent = [t.response m.connection m 0 0] ++ t.sent := by
  rw [startChild_eq k env t client m rfl rfl, if_neg (not_not_intro hr),
    if_pos (fun h => hw (addChildWatcher_eq_zero env |>.mp h)), hr]
  rfl

theorem noFalseSuccess_spawnRequest (s : Server) (c : ConnId) (msg : AppSpawnMsg) (env : SpawnEnv) :
    NoFalseSuccess k s (.spawnRequest c msg env) ↔ Heard k s (.spawnRequest c msg env) := by
  have hfail : Sends Response.Failure s (s.step k (.spawnRequest c msg env)) →
      NoFalseSuccess k s (.spawnRequest c msg env) :=
    fun h r hr h0 => absurd h0 (newResponses_of_sends h r hr)
  have hs : Sends Response.Failure s
      ((s.createAppSpawnMsg.use s.nextId).noteRequest c s.nextId) := Sends.of_eq rfl
  by_cases hc : env.checkRet = 0
  · cases hx : env.ctx with
    | none =>
      refine ⟨fun _ client hm => by simp [hx] at hm, fun _ => hfail ?_⟩
      simp only [Server.step, processSpawnReqMsg, hc, hx, ne_eq, not_true_eq_false, if_false]
      exact hs.trans (Sends.refuse k.ne_zero.1)
    | some client =>
      have hstep : s.step k (.spawnRequest c msg env) = startChild k env
          ((s.createAppSpawnMsg.use s.nextId).noteRequest c s.nextId) client
          (spawnMessage env c { id := s.nextId, msg }) := by
        simp only [Server.step, processSpawnReqMsg, hc, hx, ne_eq, not_true_eq_false, if_false]
      have hret : (started k env ((s.createAppSpawnMsg.use s.nextId).noteRequest c s.nextId) client
          (spawnMessage env c { id := s.nextId, msg })).ret = 0 ↔ env.Starts k s.content client
            (spawnMessage env c { id := s.nextId, msg }).msg :=
        runAppSpawnProcessMsg_ret env _ _ _ _ _ _
      constructor
      · intro ht client' hm _ hr
        obtain rfl : client = client' := Option.some.inj (hx.symm.trans hm)
        by_contra hw
        have hnew := newResponses_eq _ (hstep ▸ sent_startChild env _ _ _ (hret.mpr hr) hw)
        exact not_noFalseSuccess (hnew ▸ List.mem_singleton_self _) rfl (fun _ _ _ h => by cases h) ht
      · intro hh
        refine hfail ?_
        rw [hstep]
        exact hs.trans (sends_startChild env _ _ _ (fun hr => hh client hx hc (hret.mp hr)))
  · refine ⟨fun _ client _ h => absurd h hc, fun _ => hfail ?_⟩
    simp only [Server.step, processSpawnReqMsg, ne_eq, hc, not_false_eq_true, if_true]
    exact hs.trans (Sends.refuse hc)

theorem noFalseSuccess_childResponse {n : NodeId} {bytes : Option (List UInt8)} {added : Bool}
    (he : s.Enabled (.childResponse n bytes added)) :
    NoFalseSuccess k s (.childResponse n bytes added) ↔
      Heard k s (.childResponse n bytes added) := by
  obtain ⟨ctx, hctx, hb⟩ := he
  have hstep : s.step k (.childResponse n bytes added) = processChildResponse s bytes added ctx := by
    simp only [Server.step, show s.contextOf n = some ctx from hctx]
  have hmem := List.mem_of_find?_eq_some hctx
  have hid : ctx.message.id = n := by simpa using List.find?_some hctx
  have hz := readResult_eq_zero (fun b hm => (hb b hm).1)
  by_cases hr : readResult bytes = 0
  · -- the response says 0, so the bytes must have been four zeros
    have hall := hz.mp hr
    have hnew : newResponses k s (.childResponse n bytes added)
        = [s.response ctx.message.connection ctx.message 0 ctx.pid] := by
      refine newResponses_eq _ ?_
      rw [hstep, processChildResponse_of_eq hr]
      cases added <;> rfl
    constructor
    · intro ht
      obtain ⟨ctx', added', heq, -⟩ := ht _ (hnew ▸ List.mem_singleton_self _) rfl
      obtain ⟨-, rfl, -⟩ := Event.childResponse.inj heq
      exact ⟨_, rfl, Or.inl rfl⟩
    · rintro ⟨b, hm, hlen⟩ r hrn -
      have hlen : b.length = 4 := by
        rcases hlen with hlen | ⟨x, hx, hne⟩
        · exact hlen
        · exact absurd (hall b hm x hx) hne
      have hzero : b = [0, 0, 0, 0] :=
        (List.eq_replicate_iff (n := 4)).mpr ⟨hlen, hall b hm⟩
      rw [hnew, List.mem_singleton] at hrn
      subst hrn
      refine ⟨ctx, added, ?_, ?_, rfl, (hb b hm).2 (by simp [hzero])⟩
      · rw [show bytes = some [0, 0, 0, 0] from hzero ▸ hm]
        simp [Server.response, hid]
      · rw [← hctx, ← hid]
        rfl
  · have heff := effects_processChildResponse hmem hr added
    rw [← hstep] at heff
    refine ⟨fun _ => ?_, fun _ => NoFalseSuccess.of_effects heff⟩
    by_contra hn
    refine hr (hz.mpr (fun b hm x hx => ?_))
    by_contra hx0
    exact hn ⟨b, hm, Or.inr ⟨x, hx, hx0⟩⟩

theorem noFalseSuccess_iff {e : Event} (he : (system k).enabled s e) :
    NoFalseSuccess k s e ↔ Heard k s e := by
  have heff : Effects s (s.step k e) → Heard k s e → (NoFalseSuccess k s e ↔ Heard k s e) :=
    fun hf hh => ⟨fun _ => hh, fun _ => NoFalseSuccess.of_effects hf⟩
  have hsent : (s.step k e).sent = s.sent → Heard k s e → (NoFalseSuccess k s e ↔ Heard k s e) := by
    intro hq hh
    refine ⟨fun _ => hh, fun _ r hr => ?_⟩
    rw [newResponses_eq [] hq] at hr
    cases hr
  cases e with
  | connection cred dev =>
    refine hsent ?_ trivial
    simp only [Server.step, onConnection]
    split
    · rfl
    · split <;> rfl
  | spawnRequest c msg env => exact noFalseSuccess_spawnRequest s c msg env
  | childResponse n bytes added => exact noFalseSuccess_childResponse he.2
  | childTimeout n =>
    refine heff ?_ trivial
    simp only [Server.step]
    split
    · exact .refl
    · next ctx hf => exact effects_waitChildTimeout k (List.mem_of_find?_eq_some hf)
  | signal sig => exact heff (effects_processSignal k s sig) trivial
  | close c => exact hsent (sent_closeTask s c) trivial
  | sendComplete pid failed => exact heff (effects_sendMessageComplete s pid failed) trivial

/-! ## Every settled request is answered -/

/-- Responses are only ever added. -/
theorem sends_step (k : Codes) (s : Server) (e : Event) :
    Sends (fun _ => True) s (s.step k e) := by
  have heff : ∀ t, Effects s t → Sends (fun _ => True) s t := by
    intro t ht
    obtain ⟨news, he, -⟩ := Sends.of_effects ht
    exact ⟨news, he, fun _ _ => trivial⟩
  cases e with
  | connection cred dev =>
    simp only [Server.step, onConnection]
    split
    · exact Sends.of_eq rfl
    · split <;> exact Sends.of_eq rfl
  | spawnRequest c msg env =>
    have hs : Sends (fun _ => True) s
        ((s.createAppSpawnMsg.use s.nextId).noteRequest c s.nextId) := Sends.of_eq rfl
    simp only [Server.step, processSpawnReqMsg]
    split
    · exact hs.trans (Sends.refuse trivial)
    · split
      · exact hs.trans (Sends.refuse trivial)
      · rw [startChild_eq k env _ _ _ rfl rfl]
        split
        · exact (hs.trans (Sends.of_eq rfl)).trans (Sends.answer trivial)
        · split
          · exact (hs.trans (Sends.of_eq rfl)).trans (Sends.answer trivial)
          · exact hs.trans (Sends.of_eq rfl)
  | childResponse n bytes added =>
    simp only [Server.step]
    split
    · exact Sends.of_eq rfl
    · next ctx hf =>
      by_cases hr : readResult bytes = 0
      · rw [processChildResponse_of_eq hr]
        cases added <;> exact (Sends.of_eq rfl).trans (Sends.answer trivial)
      · exact heff _ (effects_processChildResponse (List.mem_of_find?_eq_some hf) hr added)
  | childTimeout n =>
    simp only [Server.step]
    split
    · exact Sends.of_eq rfl
    · next ctx hf => exact heff _ (effects_waitChildTimeout k (List.mem_of_find?_eq_some hf))
  | signal sig => exact heff _ (effects_processSignal k s sig)
  | close c => exact Sends.of_eq (sent_closeTask s c)
  | sendComplete pid failed => exact heff _ (effects_sendMessageComplete s pid failed)

theorem answered_step {e : Event} (hI : s.ledger.Sound ∧ Numbered s) (he : (system k).enabled s e)
    {n : NodeId} (hn : s.IsPending n ∨ ∃ c msg env, e = .spawnRequest c msg env ∧ n = s.nextId)
    (hp : ¬ (s.step k e).IsPending n) (hne : ∀ c, e ≠ .close c) :
    ∃ r ∈ newResponses k s e, r.message = n := by
  have hone := length_responsesTo_step hI he hn hp hne
  obtain ⟨r, hr⟩ := List.exists_mem_of_length_pos (Nat.lt_of_lt_of_eq Nat.one_pos hone.symm)
  obtain ⟨hmem, hid⟩ := List.mem_filter.mp hr
  have hrn : r.message = n := of_decide_eq_true hid
  obtain ⟨news, hnews, -⟩ := sends_step k s e
  rw [newResponses_eq news hnews]
  rw [hnews] at hmem
  rcases List.mem_append.mp hmem with hnew | hold
  · exact ⟨r, hnew, hrn⟩
  · -- it had no answer before
    have hbefore : r ∈ s.responsesTo n := List.mem_filter.mpr ⟨hold, hid⟩
    rw [responsesTo_eq_nil hI hn] at hbefore
    cases hbefore

/-- **The answers of a step are truthful exactly when every child that is started is watched,
and what is read from the pipe of a child is its complete answer or an error.** -/
theorem truthful_iff {e : Event} (h : (system k).Reachable s) (he : (system k).enabled s e) :
    Truthful k s e ↔ Heard k s e := by
  rw [← noFalseSuccess_iff he]
  refine ⟨fun ht => ht.success, fun ht => ⟨ht, fun n hd => ?_, fun n hn hp hne => ?_⟩⟩
  · have hp := settled_of_decides h he hd
    obtain ⟨hn, hne⟩ := pending_of_decides he hd
    exact ⟨hp, answered_step (sound_of_reachable h) he hn hp hne⟩
  · exact answered_step (sound_of_reachable h) he hn hp hne

/-- A child that is started and watched writes its whole answer. -/
theorem truthful_iff_run : ∃ s, (system sampleCodes).Reachable s ∧
    Truthful sampleCodes s (.childResponse 2 (some [0, 0, 0, 0]) true) :=
  have hr : (system sampleCodes).Reachable _ :=
    sampleRun [.connection (some 0) false, .spawnRequest 1 sampleMsg sampleEnv]
      (by decide +kernel)
  ⟨_, hr, (truthful_iff hr (by decide +kernel)).mpr ⟨[0, 0, 0, 0], rfl, Or.inl rfl⟩⟩

/-- `LE_StartWatcher` fails for a child that was started: the client is told 0. -/
theorem unwatched_child_answered_zero : ∃ s, (system sampleCodes).Reachable s ∧
    (system sampleCodes).enabled s
      (.spawnRequest 1 sampleMsg { sampleEnv with startWatcher := false }) ∧
    ¬ Truthful sampleCodes s
      (.spawnRequest 1 sampleMsg { sampleEnv with startWatcher := false }) := by
  refine ⟨_, sampleRun [.connection (some 0) false] (by decide +kernel), by decide +kernel,
    fun h => ?_⟩
  obtain ⟨ctx, added, heq, -⟩ := h.success
    { connection := 1, message := 2, result := 0, pid := 0, connOpen := true }
    (by decide +kernel) rfl
  cases heq

end Appspawn
