import Mathlib.Logic.Relation
import OpenHarmonyMac.Appspawn.System

/-!
# What the handlers of a context do

Signals, timeouts and answers of children are handled in many branches, but each branch is a
series of the same few effects. `Effect` lists them, and the lemmas of this module take the
handlers apart once and for all; a property of these handlers is then one case for each effect.
-/

namespace Appspawn

/-- The effects of the handlers that can only report a failure. -/
inductive Effect : Server → Server → Prop
  | use (s : Server) (ctx : AppSpawningCtx) : ctx ∈ s.appSpawnQueue → Effect s (s.use ctx.message.id)
  | countCrash (s : Server) (id : UInt32) : Effect s (countCrash s id)
  | answer (s : Server) (ctx : AppSpawningCtx) (result pid : Int) :
      ctx ∈ s.appSpawnQueue → result ≠ 0 → Effect s (s.answer ctx result pid)
  | kill (s : Server) (pid : Int) (sig : Nat) : Effect s (s.kill pid sig)
  | reap (s : Server) (pid : Int) : Effect s (s.reap pid)
  | content (s : Server) (content : AppSpawnContent) : Effect s { s with content := content }
  | terminate (s : Server) (app : AppSpawnedProcess) : Effect s (s.terminateSpawnedProcess app)
  | stopLoop (s : Server) : Effect s { s with loopStopped := true }

/-- Any number of effects. -/
abbrev Effects : Server → Server → Prop := Relation.ReflTransGen Effect

open Relation (ReflTransGen)

variable {k : Codes} {s s' : Server}

theorem Effects.foldl {α : Type*} {f : Server → α → Server} (hf : ∀ s a, Effects s (f s a))
    (as : List α) : ∀ s, Effects s (as.foldl f s) := by
  induction as with
  | nil => exact fun s => .refl
  | cons a as ih => exact fun s => (hf s a).trans (ih (f s a))

theorem Effects.loopStopped (h : Effects s s') (hs : s.loopStopped = true) :
    s'.loopStopped = true := by
  induction h with
  | refl => exact hs
  | tail _ he ih =>
    cases he with
    | stopLoop => rfl
    | _ => exact ih

/-! ## Stopping the server -/

theorem effects_stopServer (name : String) (s : Server) : Effects s (stopServer name s) := by
  unfold stopServer
  split
  · exact .refl
  · next app _ =>
    exact ((ReflTransGen.single (Effect.kill s app.pid SIGTERM)).tail (Effect.reap _ app.pid)).tail
      (Effect.terminate _ app)

theorem effects_stopReserved (s : Server) : Effects s (stopReserved s) := by
  unfold stopReserved
  split
  · exact (ReflTransGen.single (Effect.kill s _ SIGKILL)).tail (Effect.content _ _)
  · exact .refl

theorem effects_appQueueDestroyProc (s : Server) (app : AppSpawnedProcess) :
    Effects s (appQueueDestroyProc s app) := by
  have h := ReflTransGen.single (Effect.terminate s app)
  simp only [appQueueDestroyProc]
  split
  · exact h.tail (Effect.kill _ app.pid SIGKILL)
  · exact h

theorem effects_stopAppSpawn (k : Codes) (s : Server) : Effects s (stopAppSpawn k s) := by
  have h := ((effects_stopServer k.nwebspawnServerName s).trans
    (effects_stopServer k.nativespawnServerName _)).trans (effects_stopReserved _)
  have hf := fun as t => Effects.foldl effects_appQueueDestroyProc as t
  exact (h.trans (hf _ _)).tail (Effect.stopLoop _)

/-! ## The handlers -/

theorem effects_waitChildDied (k : Codes) (s : Server) (pid : Int) :
    Effects s (waitChildDied k s pid) := by
  unfold waitChildDied
  split
  · exact .refl
  · next ctx hf =>
    have hmem := List.mem_of_find?_eq_some hf
    split
    · have h := ((ReflTransGen.single (Effect.use s ctx hmem)).tail
        (Effect.countCrash _ ctx.client.id)).tail
        (Effect.answer _ ctx k.childCrash 0 hmem k.ne_zero.2.2.1)
      simp only
      split
      · exact h.trans (effects_stopAppSpawn k _)
      · exact h
    · exact .refl

theorem effects_collect (s : Server) (pid : Int) : Effects s (collect s pid) := by
  unfold collect
  split
  · exact (ReflTransGen.single (Effect.reap s pid)).tail (Effect.content _ _)
  · exact ReflTransGen.single (Effect.reap s pid)

theorem effects_handleDiedPid (k : Codes) (s : Server) (pid : Int) :
    Effects s (handleDiedPid k s pid) := by
  have hc := effects_collect s pid
  simp only [handleDiedPid]
  split
  · exact hc.trans (effects_waitChildDied k _ pid)
  · next app _ =>
    have h := hc.tail (Effect.terminate _ app)
    split
    · exact h.trans (effects_stopAppSpawn k _)
    · exact h

theorem effects_reapChild (k : Codes) (s : Server) (pid : Int) : Effects s (reapChild k s pid) := by
  unfold reapChild
  split
  · exact effects_handleDiedPid k s pid
  · exact .refl

theorem effects_processSignal (k : Codes) (s : Server) (sig : Signal) :
    Effects s (processSignal k s sig) := by
  cases sig with
  | sigchld pids =>
    have h : Effects s (pids.foldl (reapChild k) s) := Effects.foldl (effects_reapChild k) pids s
    simp only [processSignal]
    split
    · exact h.tail (Effect.stopLoop _)
    · exact h
  | sigterm => exact effects_stopAppSpawn k s
  | other => exact .refl

theorem effects_waitChildTimeout (k : Codes) {ctx : AppSpawningCtx} (h : ctx ∈ s.appSpawnQueue) :
    Effects s (waitChildTimeout k s ctx) := by
  have hu := ReflTransGen.single (Effect.use s ctx h)
  simp only [waitChildTimeout]
  split
  · exact (hu.tail (Effect.kill _ ctx.pid SIGKILL)).tail
      (Effect.answer _ ctx k.spawnTimeout 0 h k.ne_zero.2.2.2.1)
  · exact hu.tail (Effect.answer _ ctx k.spawnTimeout 0 h k.ne_zero.2.2.2.1)

/-- A child that reports a failure. -/
theorem effects_processChildResponse {ctx : AppSpawningCtx} (h : ctx ∈ s.appSpawnQueue)
    {bytes : Option (List UInt8)} (hr : readResult bytes ≠ 0) (added : Bool) :
    Effects s (processChildResponse s bytes added ctx) := by
  rw [processChildResponse_of_ne hr]
  exact (ReflTransGen.single (Effect.use s ctx h)).tail (Effect.answer _ ctx _ ctx.pid h hr)

theorem effects_sendMessageComplete (s : Server) (pid : Int) (failed : Bool) :
    Effects s (sendMessageComplete s pid failed) := by
  unfold sendMessageComplete
  split
  · exact .refl
  · split
    · exact ReflTransGen.single (Effect.kill s pid SIGKILL)
    · exact .refl

/-! ## The close of a connection -/

/-- A traversal with `AppSpawningCtxOnClose` takes the contexts of the connection out. -/
theorem foldl_onClose (c : ConnId) (ctxs : List AppSpawningCtx) : ∀ s : Server,
    ∃ released kills stale, ctxs.foldl (appSpawningCtxOnClose c) s = { s with
      appSpawnQueue := s.appSpawnQueue.filter (fun x => ctxs.all (fun ctx =>
        ctx.message.connection != c || x.message.id != ctx.message.id))
      released := released
      kills := kills
      staleUses := stale } := by
  induction ctxs with
  | nil => exact fun s => ⟨_, _, _, by simp; rfl⟩
  | cons ctx ctxs ih =>
    intro s
    obtain ⟨released, kills, stale, he⟩ := ih (appSpawningCtxOnClose c s ctx)
    refine ⟨released, kills, stale, ?_⟩
    rw [List.foldl_cons, he]
    unfold appSpawningCtxOnClose
    by_cases hc : ctx.message.connection = c
    · have hb : (ctx.message.connection != c) = false := by simp [hc]
      simp only [hc, ne_eq, not_true_eq_false, if_false]
      split <;> simp [List.filter_filter, Bool.and_comm, hb]
    · have hb : (ctx.message.connection != c) = true := by simp [hc]
      simp [hc, hb, Server.use]

/-- A close touches connections, contexts and messages, and sends signals. -/
theorem closeTask_eq (s : Server) (c : ConnId) :
    ∃ connections queue released kills stale, closeTask s c = { s with
      connections := connections
      appSpawnQueue := queue
      released := released
      kills := kills
      staleUses := stale } ∧ ∀ ctx ∈ queue, ctx ∈ s.appSpawnQueue := by
  simp only [closeTask, onClose]
  split
  · exact ⟨_, _, _, _, _, rfl, fun _ h => h⟩
  · next conn _ =>
    obtain ⟨released, kills, stale, he⟩ := foldl_onClose c
      ((deleteIncompleteMsg s conn).updateConnection c AppSpawnConnection.onClose).appSpawnQueue
      ((deleteIncompleteMsg s conn).updateConnection c AppSpawnConnection.onClose)
    rw [he]
    unfold deleteIncompleteMsg
    split
    · exact ⟨_, _, _, _, _, rfl, fun _ h => (List.mem_filter.mp h).1⟩
    · exact ⟨_, _, _, _, _, rfl, fun _ h => (List.mem_filter.mp h).1⟩

end Appspawn
