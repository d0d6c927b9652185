import OpenHarmonyMac.Infra.Transition
import OpenHarmonyMac.Appspawn.Spawn

/-!
# The appspawn server as a transition system

The server handles one event of its loop after the other. What the environment decides during
an event (system calls that fail, the bytes on a pipe, the children that died) is part of it.

The receive path is in `Appspawn/Receive.lean`; here a spawn request is an event of its own. A beget
command goes through `ProcessSpawnReqMsg` as well; it comes with the other messages in
`Appspawn/Dispatch.lean`, whose system is `service`.
-/

namespace Appspawn

inductive Event
  /-- A client connects: its uid if `getsockopt` tells it, and `IsDeveloperModeOpen`. -/
  | connection (cred : Option Nat) (developerMode : Bool)
  | spawnRequest (c : ConnId) (msg : AppSpawnMsg) (env : SpawnEnv)
  /-- The pipe of the context of message `n` is readable, and `read` gives `bytes`. -/
  | childResponse (n : NodeId) (bytes : Option (List UInt8)) (added : Bool)
  | childTimeout (n : NodeId)
  | signal (sig : Signal)
  | close (c : ConnId)
  /-- A response has left the send buffer, or could not be sent. -/
  | sendComplete (pid : Int) (failed : Bool)

/-- `OnConnectionUserCheck` -/
def onConnectionUserCheck (developerMode : Bool) (uid : Nat) : Bool :=
  decide (uid ∈ [0, 3350, 5523, 1090]) || (uid == 2000 && developerMode)

/-- `OnConnection`: a client that does not pass the check is closed at once. -/
def onConnection (s : Server) (cred : Option Nat) (developerMode : Bool) : Server :=
  match cred with
  | none => s
  | some uid =>
    if onConnectionUserCheck developerMode uid then
      { s with
        nextId := s.nextId + 1
        connections := s.connections ++ [{ id := s.nextId, peerUid := some uid }] }
    else s

/-- `SendMessageComplete` -/
def sendMessageComplete (s : Server) (pid : Int) (failed : Bool) : Server :=
  match s.getSpawnedProcess pid with
  | none => s
  | some _ => if failed && decide (0 < pid) then s.kill pid SIGKILL else s

/-- The context that owns the message `n`. -/
def Server.contextOf (s : Server) (n : NodeId) : Option AppSpawningCtx :=
  s.appSpawnQueue.find? (·.message.id == n)

variable (k : Codes)

def Server.step (s : Server) : Event → Server
  | .connection cred developerMode => onConnection s cred developerMode
  | .spawnRequest c msg env =>
    processSpawnReqMsg k env s.createAppSpawnMsg c { id := s.nextId, msg }
  | .childResponse n bytes added =>
    match s.contextOf n with
    | none => s
    | some ctx => processChildResponse s bytes added ctx
  | .childTimeout n =>
    match s.contextOf n with
    | none => s
    | some ctx => waitChildTimeout k s ctx
  | .signal sig => processSignal k s sig
  | .close c => closeTask s c
  | .sendComplete pid failed => sendMessageComplete s pid failed

/-- What the kernel promises about `fork`: a new child has a positive pid that no other child
has which is not reaped. -/
structure SpawnEnv.Possible (env : SpawnEnv) (s : Server) : Prop where
  fork : ∀ pid ∈ env.fork, 0 < pid ∧ s.waitable pid = false
  preforkFork : ∀ pid ∈ env.preforkFork, 0 < pid ∧ s.waitable pid = false
  distinct : ∀ pid ∈ env.fork, env.preforkFork ≠ some pid

instance (env : SpawnEnv) (s : Server) : Decidable (env.Possible s) :=
  decidable_of_iff ((∀ pid ∈ env.fork, 0 < pid ∧ s.waitable pid = false) ∧
      (∀ pid ∈ env.preforkFork, 0 < pid ∧ s.waitable pid = false) ∧
      ∀ pid ∈ env.fork, env.preforkFork ≠ some pid)
    ⟨fun h => ⟨h.1, h.2.1, h.2.2⟩, fun h => ⟨h.fork, h.preforkFork, h.distinct⟩⟩

/-- The events the loop can deliver. Requests and closes belong to an open connection, pipes and
timers to a context in the queue, and what is read from a pipe was written by a child. -/
def Server.Enabled (s : Server) : Event → Prop
  | .spawnRequest c _ env => s.isOpen c = true ∧ env.Possible s
  | .childResponse n bytes _ =>
    ∃ ctx ∈ s.contextOf n, ∀ b ∈ bytes, b.length ≤ 4 ∧ (b ≠ [] → 0 < ctx.pid)
  | .childTimeout n => (s.contextOf n).isSome = true
  | .close c => s.isOpen c = true
  | .sendComplete pid _ => ∃ r ∈ s.sent, r.pid = pid
  | _ => True

instance (s : Server) (e : Event) : Decidable (s.Enabled e) := by
  cases e <;> unfold Server.Enabled <;> infer_instance

/-- The server after `StartSpawnService`. `NWebSpawnLaunch` may have forked nwebspawn. -/
def launched (content : AppSpawnContent) (nwebspawn : Option Int) : Server where
  content := content
  appQueue := nwebspawn.toList.map (fun pid =>
    { pid, name := k.nwebspawnServerName, isDebuggable := false })
  procs := nwebspawn.toList.map (fun pid => { pid })

def system : Infra.System Server Event where
  init s := ∃ content nwebspawn, content.reservedPid ≤ 0 ∧ (∀ pid ∈ nwebspawn, 0 < pid) ∧
    s = launched k content nwebspawn
  enabled s e := s.loopStopped = false ∧ s.Enabled e
  step s e := s.step k e

instance (s : Server) (e : Event) : Decidable ((system k).enabled s e) :=
  inferInstanceAs (Decidable (_ ∧ _))

/-! ## Runs on fixed inputs -/

def sampleMsg : AppSpawnMsg :=
  { msgType := .appSpawn, msgLen := 280, msgId := 1, processName := "app", bundleName := "app" }

def sampleEnv : SpawnEnv := { ctx := some { id := 1, flags := 0 }, fork := some 100 }

def sampleLaunch : Server := launched sampleCodes { mode := .appSpawn, enablePerfork := true } none

theorem sampleRun (es : List Event) (h : (system sampleCodes).EnabledAll sampleLaunch es) :
    (system sampleCodes).Reachable (es.foldl (fun s e => s.step sampleCodes e) sampleLaunch) :=
  ⟨sampleLaunch, es, ⟨_, _, by decide, by decide, rfl⟩, Infra.System.Run.of_enabledAll h⟩

end Appspawn
