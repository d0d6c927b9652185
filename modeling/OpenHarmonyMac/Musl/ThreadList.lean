import Mathlib.Logic.Function.Basic
import Mathlib.Tactic.Ring
import OpenHarmonyMac.Infra.Transition

/-!
# The thread list lock

`__tl_lock` and `__tl_unlock` keep the owner, the recursion count and the waiters in three
variables. Each access to one of them is one step here. A process that has been forked starts with
copies of all three, and with one thread.

* `Process` — the lock variables of a process and its live threads
* `Process.next` — the next statement of a thread in `__tl_lock`, `__wait` or `__tl_unlock`
* `threadList` — the processes, interleaved in any order
-/

namespace Musl

open Infra

/-- Where a thread is: the access that comes next, with what its local variables hold. -/
inductive Pc
  | out
  -- `__tl_lock`
  | lock
  | nest
  | nestStore (count : Int)
  | acquire
  | tgkill (val : Nat)
  | takeOver (val : Nat)
  -- `__wait`
  | spin (val spins : Nat)
  | spinRead (val spins : Nat)
  | incWaiters (val : Nat)
  | futexWait (val : Nat)
  | decWaiters
  -- `__tl_unlock`
  | unlock
  | unnest
  | unnestStore (count : Int)
  | release
  | wake
  -- `__pthread_exit`, where only `SYS_exit` is left
  | exit
  deriving DecidableEq, Repr

/-- A thread. `held` counts the calls of `__tl_lock` that have succeeded since the thread acquired
the lock, less those of `__tl_unlock`; `owed` counts the same for the thread that it was forked
from. -/
structure Thread where
  pc : Pc := .out
  held : Nat := 0
  owed : Nat := 0
  deriving DecidableEq, Repr

/-- A call of `__tl_unlock` has done its work. -/
def Thread.unlocked (th : Thread) : Thread :=
  if 0 < th.held then { th with held := th.held - 1 } else { th with owed := th.owed - 1 }

/-- A process: `__thread_list_lock`, `tl_lock_count`, `tl_lock_waiters` and the threads by their
thread ids. -/
structure Process where
  threadListLock : Nat := 0
  tlLockCount : Int := 0
  tlLockWaiters : Int := 0
  threads : Nat → Option Thread

/-- Arithmetic of an `int`. -/
def int32 (n : Int) : Int := Int.bmod n (2 ^ 32)

/-- What a thread does next. -/
inductive Act
  | callLock
  | callUnlock
  | next
  | tgkill (esrch : Bool)
  | pthreadExit
  | sysExit (cleared : Bool)
  | die
  | fork (child : Nat)
  deriving DecidableEq, Repr

namespace Process

variable (p : Process) (tid : Nat) (th : Thread)

/-- The thread becomes `th`. -/
def put : Process := { p with threads := Function.update p.threads tid (some th) }

/-- The thread goes on at `pc`. -/
def goto (pc : Pc) : Process := p.put tid { th with pc := pc }

@[simp] theorem goto_threadListLock (pc : Pc) :
    (p.goto tid th pc).threadListLock = p.threadListLock := rfl

@[simp] theorem goto_tlLockCount (pc : Pc) : (p.goto tid th pc).tlLockCount = p.tlLockCount := rfl

@[simp] theorem goto_threads (pc : Pc) : (p.goto tid th pc).threads =
    Function.update p.threads tid (some { th with pc := pc }) := rfl

/-- The thread is gone. -/
def drop : Process := { p with threads := Function.update p.threads tid none }

/-- The number of times that `__wait` looks at the word before it sleeps. -/
def waitSpins : Nat := 100

/-- The next access of a thread in one of the functions. Reading `tl_lock_waiters` at the end of
`__tl_unlock` and the `__wake` that depends on it change none of the variables. -/
def next : Process :=
  match th.pc with
  | .lock => p.goto tid th (if p.threadListLock = tid then .nest else .acquire)
  | .nest => p.goto tid th (.nestStore p.tlLockCount)
  | .nestStore count =>
    { p with tlLockCount := int32 (count + 1) }.goto tid { th with held := th.held + 1 } .out
  | .acquire =>
    if p.threadListLock = 0 then
      { p with threadListLock := tid }.goto tid { th with held := 1 } .out
    else p.goto tid th (.tgkill p.threadListLock)
  | .takeOver val =>
    if p.threadListLock = val then
      { p with threadListLock := tid }.goto tid { th with held := 1 } .out
    else p.goto tid th .acquire
  | .spin val spins =>
    p.goto tid th (if 0 < spins ∧ p.tlLockWaiters = 0 then .spinRead val (spins - 1)
      else .incWaiters val)
  | .spinRead val spins =>
    p.goto tid th (if p.threadListLock = val then .spin val spins else .acquire)
  | .incWaiters val =>
    { p with tlLockWaiters := int32 (p.tlLockWaiters + 1) }.goto tid th (.futexWait val)
  | .futexWait val =>
    p.goto tid th (if p.threadListLock = val then .futexWait val else .decWaiters)
  | .decWaiters => { p with tlLockWaiters := int32 (p.tlLockWaiters - 1) }.goto tid th .acquire
  | .unlock => p.goto tid th (if p.tlLockCount ≠ 0 then .unnest else .release)
  | .unnest => p.goto tid th (.unnestStore p.tlLockCount)
  | .unnestStore count => { p with tlLockCount := int32 (count - 1) }.goto tid th.unlocked .out
  | .release => { p with threadListLock := 0 }.goto tid th.unlocked .wake
  | .wake => p.goto tid th .out
  | .out | .tgkill _ | .exit => p

/-- A step of a thread in its process. A fork leaves the process of the caller as it is. -/
def step : Act → Process
  | .callLock => p.goto tid th .lock
  | .callUnlock => p.goto tid th .unlock
  | .next => p.next tid th
  | .tgkill esrch =>
    match th.pc with
    | .tgkill val => p.goto tid th (if esrch then .takeOver val else .spin val waitSpins)
    | _ => p
  | .pthreadExit => { p with tlLockCount := 0 }.goto tid th .exit
  | .sysExit cleared =>
    -- the kernel clears the word if the thread has it for its exit futex
    if cleared then { p with threadListLock := 0 }.drop tid else p.drop tid
  | .die => p.drop tid
  | .fork _ => p

/-- The new process of a fork: the lock variables as they are, and the thread that called it. -/
def forked (child : Nat) : Process where
  threadListLock := p.threadListLock
  tlLockCount := p.tlLockCount
  tlLockWaiters := p.tlLockWaiters
  threads := Function.update (fun _ => none) child (some { owed := th.held + th.owed })

/-- The guards. A thread only unlocks what it has locked; `tgkill` finds every live thread of the
process, and may find others (a dead leader); a thread ends while it holds the lock, through
`__pthread_exit` or without it; and the thread of a new process gets an id that is not in use. -/
def Enabled : Act → Prop
  | .callLock => th.pc = .out
  | .callUnlock => th.pc = .out ∧ 0 < th.held + th.owed
  | .next =>
    match th.pc with
    | .out | .tgkill _ | .exit => False
    | _ => True
  | .tgkill esrch =>
    match th.pc with
    | .tgkill val => esrch = true → p.threads val = none
    | _ => False
  | .pthreadExit => th.pc = .out ∧ 0 < th.held
  | .sysExit _ => th.pc = .exit
  | .die => th.pc = .out
  | .fork child => th.pc = .out ∧ child ≠ 0 ∧ p.threads child = none

instance (act : Act) : Decidable (p.Enabled th act) := by
  cases act <;> simp only [Enabled] <;> first | infer_instance | (split <;> infer_instance)

end Process

/-- The processes by their ids. -/
abbrev World : Type := Nat → Option Process

/-- A step of the thread `tid` of the process `pid`. -/
structure Event where
  pid : Nat
  tid : Nat
  act : Act
  deriving DecidableEq, Repr

namespace World

variable (w : World) (e : Event)

/-- The process of an event, with the thread that makes the step. -/
def actor : Option (Process × Thread) := do
  let p ← w e.pid
  let th ← p.threads e.tid
  return (p, th)

/-- A fork adds a process, under the id of its thread. Every other step is one in the process. -/
def step : World :=
  match w.actor e with
  | none => w
  | some (p, th) =>
    match e.act with
    | .fork child => Function.update w child (some (p.forked th child))
    | act => Function.update w e.pid (some (p.step e.tid th act))

def Enabled : Prop :=
  match w.actor e with
  | none => False
  | some (p, th) =>
    p.Enabled th e.act ∧
      match e.act with
      | .fork child => (w child).isNone
      | _ => True

instance : Decidable (w.Enabled e) := by
  unfold Enabled
  split
  · infer_instance
  · refine @instDecidableAnd _ _ _ ?_
    split <;> infer_instance

/-- Before the first call the lock is free and no thread is in one of the functions. There is no
thread 0. -/
def Init : Prop :=
  ∀ pid p, w pid = some p → p.threadListLock = 0 ∧ p.tlLockCount = 0 ∧ p.threads 0 = none ∧
    ∀ tid th, p.threads tid = some th → th = {}

end World

/-- **The thread list locks of all processes.** -/
def threadList : System World Event where
  init := World.Init
  enabled := World.Enabled
  step := World.step

instance (w : World) (e : Event) : Decidable (threadList.enabled w e) :=
  inferInstanceAs (Decidable (w.Enabled e))

end Musl
