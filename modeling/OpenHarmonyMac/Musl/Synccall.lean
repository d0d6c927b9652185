import OpenHarmonyMac.Infra.Census
import OpenHarmonyMac.Infra.Transition

/-!
# Calling a function in all threads

`__synccall` stops all other threads in a signal handler and lets each of them call a function, by
means of two semaphores. `__setxid` calls `do_setxid` in this way, since the kernel keeps the ids of
each thread apart. Each access to a variable that threads share is one step here.

* `Process.next` — the next step of the caller
* `Process.handlerNext` — the next step of another thread, in the signal handler
* `synccall` — the threads, interleaved in any order
* `Balanced` — the semaphores in every state, by where the threads are
-/

namespace Musl.Synccall

open Infra

/-- Where a call of `do_setxid` is. -/
inductive Body
  | read
  | syscall
  | check (ret : Int)
  | store (ret : Int)
  deriving DecidableEq, Repr

/-- Where another thread is: the signal has not been sent, or is on its way, or the handler comes to
the next access. -/
inductive HandlerPc
  | running
  | signalled
  | waitFirst
  | callback (body : Body)
  | postRan
  | waitSecond
  | postGone
  | returned
  deriving DecidableEq, Repr

/-- Where the caller is. -/
inductive CallerPc
  | signal
  | waitCaught
  | post (i : Nat)
  | waitRan (i : Nat)
  | func (body : Body)
  | release (i : Nat)
  | waitGone (i : Nat)
  | returned
  deriving DecidableEq, Repr

/-- What the threads share, the ids of the threads, and where each of them is. The caller is `none`
among those that change their ids. -/
structure Process (τ : Type) where
  /-- The thread list, from the one behind the caller on. -/
  threads : List τ
  targetTid : Option τ := none
  callerSem : Nat := 0
  targetSem : Nat := 0
  count : Nat := 0
  /-- The callback has been replaced with `dummy`. -/
  aborted : Bool := false
  /-- `ret` in the context of `do_setxid`. -/
  ret : Int := 1
  killed : Bool := false
  changed : Option τ → Bool := fun _ => false
  caller : CallerPc := .signal
  pc : τ → HandlerPc := fun _ => .running

/-- The next step of the caller or of another thread, and the answer of the kernel to it. -/
inductive Act (τ : Type)
  | caller (answer : Int)
  | handler (t : τ) (answer : Int)
  deriving DecidableEq

/-- `EAGAIN` -/
def eagain : Int := 11

namespace Process

variable {τ : Type} [DecidableEq τ]

/-- A step of `do_setxid` in the thread `x`, with where the call is then. -/
def doSetxid (s : Process τ) (x : Option τ) (answer : Int) : Body → Process τ × Option Body
  | .read => if s.ret < 0 then (s, none) else (s, some .syscall)
  | .syscall =>
    ({ s with changed := if answer = 0 then Function.update s.changed x true else s.changed },
      some (.check answer))
  | .check ret =>
    if ret ≠ 0 ∧ s.ret = 0 then ({ s with killed := true }, some (.check ret))
    else (s, some (.store ret))
  | .store ret => ({ s with ret := ret }, none)

/-- The next step of `__synccall`. The answer to `tkill` is 0 or the number of an error. -/
def next (s : Process τ) (answer : Int) : Process τ :=
  match s.caller with
  | .signal =>
    match s.threads[s.count]? with
    | some td =>
      if answer = 0 then
        { s with
          targetTid := some td
          pc := Function.update s.pc td .signalled
          caller := .waitCaught }
      -- the signal is sent again
      else if answer = eagain then { s with targetTid := some td }
      else { s with targetTid := none, aborted := true, caller := .post 0 }
    | none => { s with targetTid := none, caller := .post 0 }
  | .waitCaught =>
    { s with callerSem := s.callerSem - 1, count := s.count + 1, caller := .signal }
  | .post i =>
    if i < s.count then { s with targetSem := s.targetSem + 1, caller := .waitRan i }
    else { s with caller := if s.aborted then .release 0 else .func .read }
  | .waitRan i => { s with callerSem := s.callerSem - 1, caller := .post (i + 1) }
  | .func body =>
    match s.doSetxid none answer body with
    | (s, some body) => { s with caller := .func body }
    | (s, none) => { s with caller := .release 0 }
  | .release i =>
    if i < s.count then { s with targetSem := s.targetSem + 1, caller := .release (i + 1) }
    else { s with caller := .waitGone 0 }
  | .waitGone i =>
    if i < s.count then { s with callerSem := s.callerSem - 1, caller := .waitGone (i + 1) }
    else { s with caller := .returned }
  | .returned => s

def goto (s : Process τ) (t : τ) (pc : HandlerPc) : Process τ :=
  { s with pc := Function.update s.pc t pc }

/-- The next step of the handler in the thread `t`. -/
def handlerNext (s : Process τ) (t : τ) (answer : Int) : Process τ :=
  match s.pc t with
  | .running | .returned => s
  | .signalled =>
    if s.targetTid = some t then { s with callerSem := s.callerSem + 1 }.goto t .waitFirst
    else s.goto t .running
  | .waitFirst =>
    { s with targetSem := s.targetSem - 1 }.goto t
      (if s.aborted then .postRan else .callback .read)
  | .callback body =>
    match s.doSetxid (some t) answer body with
    | (s, some body) => s.goto t (.callback body)
    | (s, none) => s.goto t .postRan
  | .postRan => { s with callerSem := s.callerSem + 1 }.goto t .waitSecond
  | .waitSecond => { s with targetSem := s.targetSem - 1 }.goto t .postGone
  | .postGone => { s with callerSem := s.callerSem + 1 }.goto t .returned

def step (s : Process τ) : Act τ → Process τ
  | .caller answer => s.next answer
  | .handler t answer => s.handlerNext t answer

/-- The caller does not wait for `caller_sem`, and the kernel answers as it does. -/
def CallerReady (s : Process τ) (answer : Int) : Prop :=
  match s.caller with
  | .waitCaught | .waitRan _ => 0 < s.callerSem
  | .waitGone i => i < s.count → 0 < s.callerSem
  | .func .syscall => answer ≤ 0
  | .returned => False
  | _ => True

/-- The thread is in the handler, or about to be, and does not wait for `target_sem`. -/
def HandlerReady (s : Process τ) (t : τ) (answer : Int) : Prop :=
  match s.pc t with
  | .running | .returned => False
  | .waitFirst | .waitSecond => 0 < s.targetSem
  | .callback .syscall => answer ≤ 0
  | _ => True

instance (s : Process τ) (answer : Int) : Decidable (s.CallerReady answer) := by
  unfold CallerReady
  split <;> infer_instance

instance (s : Process τ) (t : τ) (answer : Int) : Decidable (s.HandlerReady t answer) := by
  unfold HandlerReady
  split <;> infer_instance

def Enabled (s : Process τ) : Act τ → Prop
  | .caller answer => s.killed = false ∧ s.CallerReady answer
  | .handler t answer => s.killed = false ∧ s.HandlerReady t answer

instance (s : Process τ) : ∀ e, Decidable (s.Enabled e)
  | .caller answer => inferInstanceAs (Decidable (s.killed = false ∧ s.CallerReady answer))
  | .handler t answer => inferInstanceAs (Decidable (s.killed = false ∧ s.HandlerReady t answer))

/-- The call of `__setxid`, with the other threads in the list. -/
def Initial (s : Process τ) : Prop :=
  s = { threads := s.threads } ∧ s.threads.Nodup ∧ ∀ t, t ∈ s.threads

end Process

variable {τ : Type} [DecidableEq τ]

/-- A call of `__setxid`, under the lock of the thread list. -/
def synccall : System (Process τ) (Act τ) where
  init := Process.Initial
  enabled := Process.Enabled
  step := Process.step

instance : ∀ (s : Process τ) e, Decidable (synccall.enabled s e) :=
  fun s e => inferInstanceAs (Decidable (s.Enabled e))

/-! ## The semaphores -/

namespace HandlerPc

/-- How often the handler has posted `caller_sem`. -/
def posts : HandlerPc → Nat
  | .running | .signalled => 0
  | .waitFirst | .callback _ | .postRan => 1
  | .waitSecond | .postGone => 2
  | .returned => 3

/-- How often the handler has come through a wait for `target_sem`. -/
def takes : HandlerPc → Nat
  | .running | .signalled | .waitFirst => 0
  | .callback _ | .postRan | .waitSecond => 1
  | .postGone | .returned => 2

/-- The handler has come through a wait and owes a post. -/
def active : HandlerPc → Nat
  | .callback _ | .postRan | .postGone => 1
  | _ => 0

/-- The handler has told the caller that it runs. -/
def caught : HandlerPc → Nat
  | .running | .signalled => 0
  | _ => 1

/-- The signal is on its way. -/
def awaited : HandlerPc → Nat
  | .signalled => 1
  | _ => 0

theorem posts_add_active (pc : HandlerPc) : pc.posts + pc.active = pc.takes + pc.caught := by
  cases pc <;> rfl

/-- What is left to take for a thread that has been caught. -/
def due (pc : HandlerPc) : Nat := 2 * pc.caught - pc.takes

theorem takes_add_due (pc : HandlerPc) : pc.takes + pc.due = pc.caught + pc.caught := by
  cases pc <;> rfl

end HandlerPc

namespace CallerPc

/-- How often the caller has sent the signal, where it has caught `count` threads. -/
def sent (count : Nat) : CallerPc → Nat
  | .waitCaught => count + 1
  | _ => count

/-- How often the caller has posted `target_sem`. -/
def posts (count : Nat) : CallerPc → Nat
  | .signal | .waitCaught => 0
  | .post i => i
  | .waitRan i => i + 1
  | .func _ => count
  | .release i => count + i
  | .waitGone _ | .returned => 2 * count

/-- How often the caller has come through a wait for `caller_sem`. -/
def takes (count : Nat) : CallerPc → Nat
  | .signal | .waitCaught => count
  | .post i | .waitRan i => count + i
  | .func _ | .release _ => 2 * count
  | .waitGone i => 2 * count + i
  | .returned => 3 * count

/-- The loops do not run too far. -/
def Within (count : Nat) : CallerPc → Prop
  | .post i | .release i | .waitGone i => i ≤ count
  | .waitRan i => i < count
  | _ => True

end CallerPc

/-! ## One step -/

/-- What a step of a handler does. -/
inductive HandlerStep (s : Process τ) (t : τ) (answer : Int) : Process τ → Prop
  | caught (hpc : s.pc t = .signalled) :
    HandlerStep s t answer ({ s with callerSem := s.callerSem + 1 }.goto t .waitFirst)
  | start (hpc : s.pc t = .waitFirst) (hsem : 0 < s.targetSem) (haborted : s.aborted = false) :
    HandlerStep s t answer ({ s with targetSem := s.targetSem - 1 }.goto t (.callback .read))
  | skip (hpc : s.pc t = .waitFirst) (hsem : 0 < s.targetSem) (haborted : s.aborted = true) :
    HandlerStep s t answer ({ s with targetSem := s.targetSem - 1 }.goto t .postRan)
  | body {body body' : Body} {s' : Process τ} (hpc : s.pc t = .callback body)
      (hanswer : body = .syscall → answer ≤ 0)
      (hbody : s.doSetxid (some t) answer body = (s', some body')) :
    HandlerStep s t answer (s'.goto t (.callback body'))
  | leave {body : Body} {s' : Process τ} (hpc : s.pc t = .callback body)
      (hbody : s.doSetxid (some t) answer body = (s', none)) :
    HandlerStep s t answer (s'.goto t .postRan)
  | ran (hpc : s.pc t = .postRan) :
    HandlerStep s t answer ({ s with callerSem := s.callerSem + 1 }.goto t .waitSecond)
  | released (hpc : s.pc t = .waitSecond) (hsem : 0 < s.targetSem) :
    HandlerStep s t answer ({ s with targetSem := s.targetSem - 1 }.goto t .postGone)
  | gone (hpc : s.pc t = .postGone) :
    HandlerStep s t answer ({ s with callerSem := s.callerSem + 1 }.goto t .returned)

theorem handlerStep {s : Process τ} {t : τ} {answer : Int}
    (he : s.Enabled (.handler t answer)) (htarget : s.pc t = .signalled → s.targetTid = some t) :
    HandlerStep s t answer (s.handlerNext t answer) := by
  have hready := he.2
  unfold Process.HandlerReady at hready
  unfold Process.handlerNext
  cases hpc : s.pc t with
  | running =>
    rw [hpc] at hready
    exact hready.elim
  | returned =>
    rw [hpc] at hready
    exact hready.elim
  | signalled =>
    simp only [if_pos (htarget hpc)]
    exact HandlerStep.caught hpc
  | waitFirst =>
    rw [hpc] at hready
    by_cases haborted : s.aborted = true
    · simp only [if_pos haborted]
      exact HandlerStep.skip hpc hready haborted
    · simp only [if_neg haborted]
      exact HandlerStep.start hpc hready (eq_false_of_ne_true haborted)
  | callback body =>
    rw [hpc] at hready
    have hanswer : body = .syscall → answer ≤ 0 := by
      rintro rfl
      exact hready
    simp only
    cases hbody : s.doSetxid (some t) answer body with
    | mk s' next =>
      cases next with
      | none => exact HandlerStep.leave hpc hbody
      | some body' => exact HandlerStep.body hpc hanswer hbody
  | postRan => exact HandlerStep.ran hpc
  | waitSecond =>
    rw [hpc] at hready
    exact HandlerStep.released hpc hready
  | postGone => exact HandlerStep.gone hpc

/-- What a step of the caller does. -/
inductive CallerStep (s : Process τ) (answer : Int) : Process τ → Prop
  | signal {td : τ} (hpc : s.caller = .signal) (htd : s.threads[s.count]? = some td) :
    CallerStep s answer
      { s with
        targetTid := some td
        pc := Function.update s.pc td .signalled
        caller := .waitCaught }
  | again {td : τ} (hpc : s.caller = .signal) (htd : s.threads[s.count]? = some td)
      (hanswer : answer = eagain) : CallerStep s answer { s with targetTid := some td }
  | abort {td : τ} (hpc : s.caller = .signal) (htd : s.threads[s.count]? = some td) :
    CallerStep s answer { s with targetTid := none, aborted := true, caller := .post 0 }
  | caughtAll (hpc : s.caller = .signal) (hall : s.threads[s.count]? = none) :
    CallerStep s answer { s with targetTid := none, caller := .post 0 }
  | caught (hpc : s.caller = .waitCaught) (hsem : 0 < s.callerSem) :
    CallerStep s answer
      { s with callerSem := s.callerSem - 1, count := s.count + 1, caller := .signal }
  | post {i : Nat} (hpc : s.caller = .post i) (hi : i < s.count) :
    CallerStep s answer { s with targetSem := s.targetSem + 1, caller := .waitRan i }
  | ran {i : Nat} (hpc : s.caller = .waitRan i) (hsem : 0 < s.callerSem) :
    CallerStep s answer { s with callerSem := s.callerSem - 1, caller := .post (i + 1) }
  | start {i : Nat} (hpc : s.caller = .post i) (hi : ¬ i < s.count) (haborted : s.aborted = false) :
    CallerStep s answer { s with caller := .func .read }
  | skip {i : Nat} (hpc : s.caller = .post i) (hi : ¬ i < s.count) (haborted : s.aborted = true) :
    CallerStep s answer { s with caller := .release 0 }
  | body {body body' : Body} {s' : Process τ} (hpc : s.caller = .func body)
      (hanswer : body = .syscall → answer ≤ 0)
      (hbody : s.doSetxid none answer body = (s', some body')) :
    CallerStep s answer { s' with caller := .func body' }
  | leave {body : Body} {s' : Process τ} (hpc : s.caller = .func body)
      (hbody : s.doSetxid none answer body = (s', none)) :
    CallerStep s answer { s' with caller := .release 0 }
  | release {i : Nat} (hpc : s.caller = .release i) (hi : i < s.count) :
    CallerStep s answer { s with targetSem := s.targetSem + 1, caller := .release (i + 1) }
  | releasedAll {i : Nat} (hpc : s.caller = .release i) (hi : ¬ i < s.count) :
    CallerStep s answer { s with caller := .waitGone 0 }
  | gone {i : Nat} (hpc : s.caller = .waitGone i) (hi : i < s.count) (hsem : 0 < s.callerSem) :
    CallerStep s answer { s with callerSem := s.callerSem - 1, caller := .waitGone (i + 1) }
  | returned {i : Nat} (hpc : s.caller = .waitGone i) (hi : ¬ i < s.count) :
    CallerStep s answer { s with caller := .returned }

theorem callerStep {s : Process τ} {answer : Int} (he : s.Enabled (.caller answer)) :
    CallerStep s answer (s.next answer) := by
  have hready := he.2
  unfold Process.CallerReady at hready
  unfold Process.next
  cases hpc : s.caller with
  | signal =>
    simp only
    cases htd : s.threads[s.count]? with
    | none => exact CallerStep.caughtAll hpc htd
    | some td =>
      simp only
      by_cases hsent : answer = 0
      · rw [if_pos hsent]
        exact CallerStep.signal hpc htd
      · by_cases hagain : answer = eagain
        · rw [if_neg hsent, if_pos hagain]
          have hstep := CallerStep.again hpc htd hagain
          rwa [hpc] at hstep
        · rw [if_neg hsent, if_neg hagain]
          exact CallerStep.abort hpc htd
  | waitCaught =>
    rw [hpc] at hready
    exact CallerStep.caught hpc hready
  | post i =>
    simp only
    split
    next hi => exact CallerStep.post hpc hi
    next hi =>
      by_cases haborted : s.aborted = true
      · simp only [if_pos haborted]
        exact CallerStep.skip hpc hi haborted
      · simp only [if_neg haborted]
        exact CallerStep.start hpc hi (eq_false_of_ne_true haborted)
  | waitRan i =>
    rw [hpc] at hready
    exact CallerStep.ran hpc hready
  | func body =>
    rw [hpc] at hready
    have hanswer : body = .syscall → answer ≤ 0 := by
      rintro rfl
      exact hready
    simp only
    cases hbody : s.doSetxid none answer body with
    | mk s' next =>
      cases next with
      | none => exact CallerStep.leave hpc hbody
      | some body' => exact CallerStep.body hpc hanswer hbody
  | release i =>
    simp only
    split
    next hi => exact CallerStep.release hpc hi
    next hi => exact CallerStep.releasedAll hpc hi
  | waitGone i =>
    rw [hpc] at hready
    simp only
    split
    next hi => exact CallerStep.gone hpc hi (hready hi)
    next hi => exact CallerStep.returned hpc hi
  | returned =>
    rw [hpc] at hready
    exact hready.elim

/-- What `do_setxid` leaves alone. -/
structure SameProtocol (s s' : Process τ) : Prop where
  threads : s'.threads = s.threads
  targetTid : s'.targetTid = s.targetTid
  callerSem : s'.callerSem = s.callerSem
  targetSem : s'.targetSem = s.targetSem
  count : s'.count = s.count
  aborted : s'.aborted = s.aborted
  caller : s'.caller = s.caller
  pc : s'.pc = s.pc

theorem doSetxid_same {s s' : Process τ} {x : Option τ} {answer : Int} {body : Body}
    {next : Option Body} (hbody : s.doSetxid x answer body = (s', next)) : SameProtocol s s' := by
  cases body with
  | read =>
    unfold Process.doSetxid at hbody
    by_cases hret : s.ret < 0
    · simp only [if_pos hret] at hbody
      cases hbody
      exact ⟨rfl, rfl, rfl, rfl, rfl, rfl, rfl, rfl⟩
    · simp only [if_neg hret] at hbody
      cases hbody
      exact ⟨rfl, rfl, rfl, rfl, rfl, rfl, rfl, rfl⟩
  | check r =>
    unfold Process.doSetxid at hbody
    by_cases hkill : r ≠ 0 ∧ s.ret = 0
    · simp only [if_pos hkill] at hbody
      cases hbody
      exact ⟨rfl, rfl, rfl, rfl, rfl, rfl, rfl, rfl⟩
    · simp only [if_neg hkill] at hbody
      cases hbody
      exact ⟨rfl, rfl, rfl, rfl, rfl, rfl, rfl, rfl⟩
  | syscall =>
    cases hbody
    exact ⟨rfl, rfl, rfl, rfl, rfl, rfl, rfl, rfl⟩
  | store r =>
    cases hbody
    exact ⟨rfl, rfl, rfl, rfl, rfl, rfl, rfl, rfl⟩

section Balance

variable [Fintype τ]

/-- What is posted and not taken is in the semaphores. -/
structure Balanced (s : Process τ) : Prop where
  callerSem : s.callerSem + s.caller.takes s.count = tally HandlerPc.posts s.pc
  targetSem : s.targetSem + tally HandlerPc.takes s.pc = s.caller.posts s.count
  sent : tally HandlerPc.caught s.pc + tally HandlerPc.awaited s.pc = s.caller.sent s.count
  awaited : s.caller ≠ .waitCaught → tally HandlerPc.awaited s.pc = 0
  within : s.caller.Within s.count
  running : ∀ t ∈ s.threads.drop (s.caller.sent s.count), s.pc t = .running
  target : ∀ t, s.pc t = .signalled → s.targetTid = some t

variable {s s' : Process τ} {t : τ} {pc : HandlerPc} {answer : Int}

omit [DecidableEq τ] in
/-- The tokens in the semaphores and the threads that owe a post, by what the caller has done. -/
theorem Balanced.tokens (h : Balanced s) :
    s.callerSem + s.targetSem + tally HandlerPc.active s.pc + s.caller.takes s.count =
      s.caller.posts s.count + tally HandlerPc.caught s.pc := by
  have hsum : tally HandlerPc.posts s.pc + tally HandlerPc.active s.pc =
      tally HandlerPc.takes s.pc + tally HandlerPc.caught s.pc :=
    tally_add_congr HandlerPc.posts_add_active
  have := h.callerSem
  have := h.targetSem
  omega

omit [DecidableEq τ] in
theorem Balanced.caught_eq (h : Balanced s) (hcaller : s.caller ≠ .waitCaught) :
    tally HandlerPc.caught s.pc = s.count := by
  have hsent := h.sent
  rw [h.awaited hcaller] at hsent
  cases hc : s.caller <;> rw [hc] at hsent <;> first | exact hsent | exact absurd hc hcaller

/-- A step of a handler that does to the semaphores what its place says. -/
theorem Balanced.handler {old : HandlerPc} (h : Balanced s) (hold : s.pc t = old)
    (hpc : s'.pc = Function.update s.pc t pc) (hthreads : s'.threads = s.threads)
    (htarget : s'.targetTid = s.targetTid) (hcount : s'.count = s.count)
    (hcaller : s'.caller = s.caller)
    (hposts : s'.callerSem + old.posts = s.callerSem + pc.posts)
    (htakes : s'.targetSem + pc.takes = s.targetSem + old.takes)
    (hcaught : pc.caught + pc.awaited = old.caught + old.awaited) (hrunning : old ≠ .running)
    (hnew : pc ≠ .signalled) : Balanced s' := by
  subst hold
  have hp := tally_update HandlerPc.posts s.pc t pc
  have ht := tally_update HandlerPc.takes s.pc t pc
  have hc := tally_update HandlerPc.caught s.pc t pc
  have ha := tally_update HandlerPc.awaited s.pc t pc
  have hzero : pc.awaited = 0 := by cases pc <;> first | rfl | exact absurd rfl hnew
  have h₁ := h.callerSem
  have h₂ := h.targetSem
  have h₃ := h.sent
  constructor
  · rw [hpc, hcaller, hcount]
    omega
  · rw [hpc, hcaller, hcount]
    omega
  · rw [hpc, hcaller, hcount]
    omega
  · intro hne
    rw [hcaller] at hne
    have := h.awaited hne
    rw [hpc]
    omega
  · rw [hcaller, hcount]
    exact h.within
  · intro u hu
    rw [hthreads, hcaller, hcount] at hu
    have hrun := h.running u hu
    have hne : u ≠ t := by
      rintro rfl
      exact hrunning hrun
    rw [hpc, Function.update_of_ne hne]
    exact hrun
  · intro u hu
    rw [hpc] at hu
    by_cases heq : u = t
    · rw [heq, Function.update_self] at hu
      exact absurd hu hnew
    · rw [Function.update_of_ne heq] at hu
      rw [htarget]
      exact h.target u hu

theorem balanced_handler (h : Balanced s) (he : s.Enabled (.handler t answer)) :
    Balanced (s.handlerNext t answer) := by
  have hstep := handlerStep he (h.target t)
  generalize s.handlerNext t answer = s' at hstep
  cases hstep with
  | caught hpc => exact h.handler hpc rfl rfl rfl rfl rfl rfl rfl rfl nofun nofun
  | start hpc hsem =>
    have hpos : s.targetSem - 1 + 1 = s.targetSem := Nat.sub_add_cancel hsem
    exact h.handler hpc rfl rfl rfl rfl rfl rfl hpos rfl nofun nofun
  | skip hpc hsem =>
    have hpos : s.targetSem - 1 + 1 = s.targetSem := Nat.sub_add_cancel hsem
    exact h.handler hpc rfl rfl rfl rfl rfl rfl hpos rfl nofun nofun
  | @body body body' s' hpc _ hbody =>
    have hsame := doSetxid_same hbody
    have hnext : (s'.goto t (.callback body')).pc = Function.update s.pc t (.callback body') := by
      rw [← hsame.pc]
      rfl
    exact h.handler hpc hnext hsame.threads hsame.targetTid hsame.count hsame.caller
      (congrArg (· + 1) hsame.callerSem) (congrArg (· + 1) hsame.targetSem) rfl nofun nofun
  | @leave body s' hpc hbody =>
    have hsame := doSetxid_same hbody
    have hnext : (s'.goto t .postRan).pc = Function.update s.pc t .postRan := by
      rw [← hsame.pc]
      rfl
    exact h.handler hpc hnext hsame.threads hsame.targetTid hsame.count hsame.caller
      (congrArg (· + 1) hsame.callerSem) (congrArg (· + 1) hsame.targetSem) rfl nofun nofun
  | ran hpc => exact h.handler hpc rfl rfl rfl rfl rfl rfl rfl rfl nofun nofun
  | released hpc hsem =>
    have hpos : s.targetSem - 1 + 2 = s.targetSem + 1 := by omega
    exact h.handler hpc rfl rfl rfl rfl rfl rfl hpos rfl nofun nofun
  | gone hpc => exact h.handler hpc rfl rfl rfl rfl rfl rfl rfl rfl nofun nofun

omit [DecidableEq τ] in
/-- A step of the caller that moves no other thread. -/
theorem Balanced.caller {caller : CallerPc} (h : Balanced s) (hpc : s'.pc = s.pc)
    (hthreads : s'.threads = s.threads) (hcaller : s'.caller = caller)
    (hold : s.caller ≠ .waitCaught) (hnew : caller ≠ .waitCaught) (hcount : s'.count = s.count)
    (hposts : s'.targetSem + s.caller.posts s.count = s.targetSem + caller.posts s.count)
    (htakes : s'.callerSem + caller.takes s.count = s.callerSem + s.caller.takes s.count)
    (hwithin : caller.Within s.count) : Balanced s' := by
  have hsent : ∀ {pc : CallerPc} (n : Nat), pc ≠ .waitCaught → pc.sent n = n := fun {pc} n hpc => by
    cases pc <;> first | rfl | exact absurd rfl hpc
  have h₁ := h.callerSem
  have h₂ := h.targetSem
  have h₃ := h.sent
  have h₄ := h.running
  have hzero := h.awaited hold
  rw [hsent _ hold] at h₃ h₄
  constructor
  · rw [hpc, hcaller, hcount]
    omega
  · rw [hpc, hcaller, hcount]
    omega
  · rw [hpc, hcaller, hcount, hsent _ hnew]
    exact h₃
  · intro
    rw [hpc]
    exact hzero
  · rw [hcaller, hcount]
    exact hwithin
  · rw [hpc, hcaller, hcount, hthreads, hsent _ hnew]
    exact h₄
  · intro t ht
    rw [hpc] at ht
    have hone := le_tally HandlerPc.awaited s.pc t
    rw [ht, hzero] at hone
    exact absurd hone (by decide)

omit [DecidableEq τ] in
/-- The thread whose turn it is has not been signalled, and comes up once. -/
theorem Balanced.next_running {td : τ} (h : Balanced s) (hnodup : s.threads.Nodup)
    (hpc : s.caller = .signal) (htd : s.threads[s.count]? = some td) :
    s.pc td = .running ∧ s.threads.drop s.count = td :: s.threads.drop (s.count + 1) ∧
      td ∉ s.threads.drop (s.count + 1) := by
  obtain ⟨hlt, hget⟩ := List.getElem?_eq_some_iff.mp htd
  have hdrop : s.threads.drop s.count = td :: s.threads.drop (s.count + 1) := by
    rw [← hget, List.getElem_cons_drop]
  have hrunning := h.running
  rw [hpc] at hrunning
  refine ⟨hrunning td ?_, hdrop, ?_⟩
  · show td ∈ s.threads.drop s.count
    rw [hdrop]
    exact List.mem_cons_self
  · have hrest := hnodup.sublist (List.drop_sublist s.count s.threads)
    rw [hdrop, List.nodup_cons] at hrest
    exact hrest.1

theorem Balanced.signal {td : τ} (h : Balanced s) (hnodup : s.threads.Nodup)
    (hpc : s.caller = .signal) (htd : s.threads[s.count]? = some td) :
    Balanced { s with
      targetTid := some td
      pc := Function.update s.pc td .signalled
      caller := .waitCaught } := by
  obtain ⟨hold, hdrop, hrest⟩ := h.next_running hnodup hpc htd
  have hrunning := h.running
  rw [hpc] at hrunning
  have hp := tally_update HandlerPc.posts s.pc td .signalled
  have ht := tally_update HandlerPc.takes s.pc td .signalled
  have hc := tally_update HandlerPc.caught s.pc td .signalled
  have ha := tally_update HandlerPc.awaited s.pc td .signalled
  rw [hold] at hp ht hc ha
  have h₁ := h.callerSem
  have h₂ := h.targetSem
  have h₃ := h.sent
  have hzero := h.awaited (by rw [hpc]; nofun)
  rw [hpc] at h₁ h₂ h₃
  simp only [CallerPc.takes, CallerPc.posts, CallerPc.sent, HandlerPc.posts, HandlerPc.takes,
    HandlerPc.caught, HandlerPc.awaited] at h₁ h₂ h₃ hp ht hc ha
  refine ⟨?_, ?_, ?_, fun hne => absurd rfl hne, trivial, fun u hu => ?_, fun u hu => ?_⟩
  · show s.callerSem + s.count = tally HandlerPc.posts (Function.update s.pc td .signalled)
    omega
  · show s.targetSem + tally HandlerPc.takes (Function.update s.pc td .signalled) = 0
    omega
  · show tally HandlerPc.caught (Function.update s.pc td .signalled) +
      tally HandlerPc.awaited (Function.update s.pc td .signalled) = s.count + 1
    omega
  · have hu' : u ∈ s.threads.drop (s.count + 1) := hu
    show Function.update s.pc td _ u = _
    rw [Function.update_of_ne (ne_of_mem_of_not_mem hu' hrest)]
    exact hrunning u (by
      show u ∈ s.threads.drop s.count
      rw [hdrop]
      exact List.mem_cons_of_mem _ hu')
  · by_cases heq : u = td
    · rw [heq]
    · have hu' : Function.update s.pc td HandlerPc.signalled u = .signalled := hu
      rw [Function.update_of_ne heq] at hu'
      have hone := le_tally HandlerPc.awaited s.pc u
      rw [hu', hzero] at hone
      exact absurd hone (by decide)

omit [DecidableEq τ] in
theorem Balanced.caught (h : Balanced s) (hpc : s.caller = .waitCaught) (hsem : 0 < s.callerSem) :
    Balanced { s with callerSem := s.callerSem - 1, count := s.count + 1, caller := .signal } := by
  have htokens := h.tokens
  have h₁ := h.callerSem
  have h₂ := h.targetSem
  have h₃ := h.sent
  have h₄ := h.running
  rw [hpc] at htokens h₁ h₂ h₃ h₄
  simp only [CallerPc.takes, CallerPc.posts, CallerPc.sent] at htokens h₁ h₂ h₃ h₄
  refine ⟨?_, h₂, h₃, fun _ => ?_, trivial, h₄, h.target⟩
  · show s.callerSem - 1 + (s.count + 1) = tally HandlerPc.posts s.pc
    omega
  · show tally HandlerPc.awaited s.pc = 0
    omega

theorem balanced_caller (h : Balanced s) (hnodup : s.threads.Nodup)
    (he : s.Enabled (.caller answer)) : Balanced (s.next answer) := by
  have hstep := callerStep he
  have hwithin := h.within
  generalize s.next answer = s' at hstep
  cases hstep with
  | signal hpc htd => exact h.signal hnodup hpc htd
  | caught hpc hsem => exact h.caught hpc hsem
  | again hpc =>
    exact h.caller rfl rfl hpc (by rw [hpc]; nofun) nofun rfl (by rw [hpc]) (by rw [hpc]) trivial
  | abort hpc =>
    exact h.caller rfl rfl rfl (by rw [hpc]; nofun) nofun rfl (by rw [hpc]; rfl) (by rw [hpc]; rfl)
      (Nat.zero_le _)
  | caughtAll hpc =>
    exact h.caller rfl rfl rfl (by rw [hpc]; nofun) nofun rfl (by rw [hpc]; rfl) (by rw [hpc]; rfl)
      (Nat.zero_le _)
  | @post i hpc hi =>
    refine h.caller rfl rfl rfl (by rw [hpc]; nofun) nofun rfl ?_ (by rw [hpc]; rfl) hi
    rw [hpc]
    show s.targetSem + 1 + i = s.targetSem + (i + 1)
    omega
  | @ran i hpc hsem =>
    rw [hpc] at hwithin
    refine h.caller rfl rfl rfl (by rw [hpc]; nofun) nofun rfl (by rw [hpc]; rfl) ?_ hwithin
    rw [hpc]
    show s.callerSem - 1 + (s.count + (i + 1)) = s.callerSem + (s.count + i)
    omega
  | @start i hpc hi =>
    rw [hpc] at hwithin
    have heq : i = s.count := Nat.le_antisymm hwithin (Nat.le_of_not_lt hi)
    refine h.caller rfl rfl rfl (by rw [hpc]; nofun) nofun rfl ?_ ?_ trivial
    · rw [hpc, heq]
      rfl
    · rw [hpc, heq]
      show s.callerSem + 2 * s.count = s.callerSem + (s.count + s.count)
      omega
  | @skip i hpc hi =>
    rw [hpc] at hwithin
    have heq : i = s.count := Nat.le_antisymm hwithin (Nat.le_of_not_lt hi)
    refine h.caller rfl rfl rfl (by rw [hpc]; nofun) nofun rfl ?_ ?_ (Nat.zero_le _)
    · rw [hpc, heq]
      rfl
    · rw [hpc, heq]
      show s.callerSem + 2 * s.count = s.callerSem + (s.count + s.count)
      omega
  | body hpc _ hbody =>
    have hsame := doSetxid_same hbody
    refine h.caller hsame.pc hsame.threads rfl (by rw [hpc]; nofun) nofun hsame.count ?_ ?_ trivial
    · rw [hpc]
      exact congrArg (· + s.count) hsame.targetSem
    · rw [hpc]
      exact congrArg (· + 2 * s.count) hsame.callerSem
  | leave hpc hbody =>
    have hsame := doSetxid_same hbody
    refine h.caller hsame.pc hsame.threads rfl (by rw [hpc]; nofun) nofun hsame.count ?_ ?_
      (Nat.zero_le _)
    · rw [hpc]
      exact congrArg (· + s.count) hsame.targetSem
    · rw [hpc]
      exact congrArg (· + 2 * s.count) hsame.callerSem
  | @release i hpc hi =>
    refine h.caller rfl rfl rfl (by rw [hpc]; nofun) nofun rfl ?_ (by rw [hpc]; rfl) hi
    rw [hpc]
    show s.targetSem + 1 + (s.count + i) = s.targetSem + (s.count + (i + 1))
    omega
  | @releasedAll i hpc hi =>
    rw [hpc] at hwithin
    have heq : i = s.count := Nat.le_antisymm hwithin (Nat.le_of_not_lt hi)
    refine h.caller rfl rfl rfl (by rw [hpc]; nofun) nofun rfl ?_ (by rw [hpc]; rfl) (Nat.zero_le _)
    rw [hpc, heq]
    show s.targetSem + (s.count + s.count) = s.targetSem + 2 * s.count
    omega
  | @gone i hpc hi hsem =>
    refine h.caller rfl rfl rfl (by rw [hpc]; nofun) nofun rfl (by rw [hpc]; rfl) ?_ hi
    rw [hpc]
    show s.callerSem - 1 + (2 * s.count + (i + 1)) = s.callerSem + (2 * s.count + i)
    omega
  | @returned i hpc hi =>
    rw [hpc] at hwithin
    have heq : i = s.count := Nat.le_antisymm hwithin (Nat.le_of_not_lt hi)
    refine h.caller rfl rfl rfl (by rw [hpc]; nofun) nofun rfl (by rw [hpc]; rfl) ?_ trivial
    rw [hpc, heq]
    show s.callerSem + 3 * s.count = s.callerSem + (2 * s.count + s.count)
    omega

end Balance

end Musl.Synccall
