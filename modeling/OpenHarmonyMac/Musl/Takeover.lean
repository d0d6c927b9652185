import OpenHarmonyMac.Musl.ThreadList

/-!
# Who owns the thread list lock

A thread that takes the lock over from a dead owner also takes over `tl_lock_count`. Where that was
0, the lock is as if it had been released.

* `thread_list_lock_kept` — one owner, and a lock that is free when the owner has unlocked it, in
  every run in which each lock that is taken over has the count 0
* `takeover_keeps_count` — a run in which the child of a fork unlocks and still has the lock
-/

namespace Musl

open Infra

variable {p p' : Process} {tid : Nat} {th th' : Thread} {w : World} {e : Event}

theorem int32_of_lt {n : Int} (h₀ : 0 ≤ n) (h : n < 2 ^ 31) : int32 n = n :=
  Int.bmod_eq_of_le (by omega) (by omega)

namespace Process

/-- The threads that have called `__tl_lock` successfully and not yet unlocked as often. -/
def Owns (p : Process) (tid : Nat) : Prop := ∃ th, p.threads tid = some th ∧ 0 < th.held

/-- At most one live thread owns the lock. -/
def Exclusive (p : Process) : Prop := ∀ tid tid', p.Owns tid → p.Owns tid' → tid = tid'

/-- A thread that a step leaves with nothing held has released the lock. -/
def Released (p p' : Process) : Prop :=
  ∀ tid th', p.Owns tid → p'.threads tid = some th' → th'.held = 0 → p'.threadListLock = 0

/-- A lock is only taken over with the count 0, and the count does not overflow. -/
def TidyAt (p : Process) : Pc → Prop
  | .takeOver val => p.threadListLock ≠ val ∨ p.tlLockCount = 0
  | .nestStore count => count < 2 ^ 31 - 1
  | _ => True

/-- The condition on a step. The thread of a new process is not the one that the lock word names. -/
def Tidy (p : Process) (th : Thread) : Act → Prop
  | .next => p.TidyAt th.pc
  | .fork child => p.threadListLock ≠ child
  | _ => True

instance (p : Process) (pc : Pc) : Decidable (p.TidyAt pc) := by
  unfold TidyAt
  split <;> infer_instance

instance (p : Process) (th : Thread) : (act : Act) → Decidable (p.Tidy th act)
  | .next => inferInstanceAs (Decidable (p.TidyAt th.pc))
  | .fork child => inferInstanceAs (Decidable (p.threadListLock ≠ child))
  | .callLock | .callUnlock | .tgkill _ | .pthreadExit | .sysExit _ | .die => instDecidableTrue

/-- What the code relies on between two accesses. -/
def PcInv (p : Process) (th : Thread) : Prop :=
  match th.pc with
  | .nest => 0 < th.held
  | .nestStore count => 0 < th.held ∧ count = p.tlLockCount
  | .takeOver val => p.threads val = none
  | .unlock => 0 < th.held + th.owed
  | .unnest => 0 < th.held + th.owed ∧ p.tlLockCount ≠ 0
  | .unnestStore count => 0 < th.held + th.owed ∧ p.tlLockCount ≠ 0 ∧ count = p.tlLockCount
  | .release => 0 < th.held + th.owed ∧ p.tlLockCount = 0
  | .exit => 0 < th.held ∧ p.tlLockCount = 0
  | _ => True

/-- The lock word names the owner, `tl_lock_count` counts its nested calls, and a thread that owes
an unlock from before a fork has the process for itself. -/
structure ThreadInv (p : Process) (tid : Nat) (th : Thread) : Prop where
  owner : 0 < th.held ↔ p.threadListLock = tid
  depth : 0 < th.held → th.pc ≠ .exit → p.tlLockCount = th.held - 1
  alone : 0 < th.owed → ∀ t, p.threads t ≠ none → t = tid
  pc : p.PcInv th

structure Inv (p : Process) : Prop where
  noZero : p.threads 0 = none
  count : 0 ≤ p.tlLockCount ∧ p.tlLockCount < 2 ^ 31
  free : p.threadListLock = 0 → p.tlLockCount = 0
  thread : ∀ tid th, p.threads tid = some th → p.ThreadInv tid th

/-! ## What a step may change -/

theorem Inv.exclusive (hp : p.Inv) : p.Exclusive := by
  rintro tid tid' ⟨th, hth, hheld⟩ ⟨th', hth', hheld'⟩
  rw [← (hp.thread _ _ hth).owner.mp hheld, (hp.thread _ _ hth').owner.mp hheld']

/-- Two threads that both have something to unlock are the same one. -/
theorem Inv.unique (hp : p.Inv) {tid' : Nat} (hth : p.threads tid = some th)
    (hth' : p.threads tid' = some th') (h : 0 < th.held + th.owed)
    (h' : 0 < th'.held + th'.owed) : tid' = tid := by
  by_cases howed : 0 < th.owed
  · exact (hp.thread _ _ hth).alone howed tid' (by simp [hth'])
  · by_cases howed' : 0 < th'.owed
    · exact ((hp.thread _ _ hth').alone howed' tid (by simp [hth])).symm
    · exact hp.exclusive _ _ ⟨th', hth', by omega⟩ ⟨th, hth, by omega⟩

/-- A thread that has nothing to unlock relies on the count nowhere. -/
theorem PcInv.update {o : Option Thread} (h : p.PcInv th') (hth : p.threads tid = some th)
    (hthreads : p'.threads = Function.update p.threads tid o)
    (hcount : p'.tlLockCount = p.tlLockCount ∨ th'.held + th'.owed = 0) : p'.PcInv th' := by
  unfold PcInv at h ⊢
  split at h
  case h_3 val _ =>
    have hne : val ≠ tid := by
      rintro rfl
      simp [hth] at h
    rw [hthreads, Function.update_of_ne hne]
    exact h
  all_goals
    first
    | trivial
    | exact h
    | (rcases hcount with hcount | hidle
       · rw [hcount]
         exact h
       · omega)

/-- **The frame of a step.** The other threads keep what they rely on if the word is not given to or
taken from one of them and only a thread that has something to unlock writes the count. -/
theorem Inv.update {o : Option Thread} (hp : p.Inv) (hth : p.threads tid = some th)
    (hthreads : p'.threads = Function.update p.threads tid o)
    (hword : ∀ t, t ≠ tid → p.threads t ≠ none →
      (p'.threadListLock = t ↔ p.threadListLock = t))
    (hcount : p'.tlLockCount = p.tlLockCount ∨ 0 < th.held + th.owed)
    (hbound : 0 ≤ p'.tlLockCount ∧ p'.tlLockCount < 2 ^ 31)
    (hfree : p'.threadListLock = 0 → p'.tlLockCount = 0)
    (hself : ∀ th' ∈ o, (0 < th'.held ↔ p'.threadListLock = tid) ∧
      (0 < th'.held → th'.pc ≠ .exit → p'.tlLockCount = th'.held - 1) ∧
      th'.owed ≤ th.owed ∧ p'.PcInv th') : p'.Inv := by
  have hlive : ∀ t, p'.threads t ≠ none → t = tid ∨ p.threads t ≠ none := by
    intro t ht
    by_cases h : t = tid
    · exact .inl h
    · rw [hthreads, Function.update_of_ne h] at ht
      exact .inr ht
  refine ⟨?_, hbound, hfree, fun t th' ht => ?_⟩
  · have hne : 0 ≠ tid := by
      rintro rfl
      simp [hp.noZero] at hth
    rw [hthreads, Function.update_of_ne hne]
    exact hp.noZero
  · by_cases h : t = tid
    · subst h
      rw [hthreads, Function.update_self] at ht
      obtain ⟨howner, hdepth, howed, hpc⟩ := hself th' ht
      refine ⟨howner, hdepth, fun hpos t' ht' => ?_, hpc⟩
      rcases hlive t' ht' with h' | h'
      · exact h'
      · exact (hp.thread _ _ hth).alone (by omega) t' h'
    · rw [hthreads, Function.update_of_ne h] at ht
      have hinv := hp.thread _ _ ht
      -- two threads that both have something to unlock would be one
      have hidle : p'.tlLockCount = p.tlLockCount ∨ th'.held + th'.owed = 0 := by
        rcases hcount with hcount | hbusy
        · exact .inl hcount
        · refine .inr (Nat.eq_zero_of_not_pos fun hbusy' => ?_)
          exact h (hp.unique hth ht hbusy hbusy')
      refine ⟨?_, fun hheld hexit => ?_, fun howed => ?_, hinv.pc.update hth hthreads hidle⟩
      · rw [hword t h (by simp [ht])]
        exact hinv.owner
      · rcases hidle with hcount | hidle
        · rw [hcount]
          exact hinv.depth hheld hexit
        · omega
      · exact absurd (hinv.alone howed tid (by simp [hth])).symm h

/-- A step to another place in the code. -/
theorem Inv.quiet {pc : Pc} (hp : p.Inv) (hth : p.threads tid = some th) (hexit : th.pc ≠ .exit)
    (hthreads : p'.threads = Function.update p.threads tid (some { th with pc := pc }))
    (hword : p'.threadListLock = p.threadListLock) (hcount : p'.tlLockCount = p.tlLockCount)
    (hpc : p.PcInv { th with pc := pc }) : p'.Inv := by
  have hinv := hp.thread _ _ hth
  refine hp.update hth hthreads (fun _ _ _ => by rw [hword]) (.inl hcount) (hcount ▸ hp.count)
    (by rw [hword, hcount]; exact hp.free) ?_
  rintro th' ⟨⟩
  rw [hword, hcount]
  exact ⟨hinv.owner, fun hheld _ => hinv.depth hheld hexit, Nat.le_refl _,
    hpc.update hth hthreads (.inl hcount)⟩

theorem Inv.goto {pc : Pc} (hp : p.Inv) (hth : p.threads tid = some th) (hexit : th.pc ≠ .exit)
    (hpc : p.PcInv { th with pc := pc }) : (p.goto tid th pc).Inv :=
  hp.quiet hth hexit rfl rfl rfl hpc

/-- A thread acquires a lock that no live thread has, with the count 0. -/
theorem Inv.acquired (hp : p.Inv) (hth : p.threads tid = some th)
    (hword : p.threads p.threadListLock = none) (hcount : p.tlLockCount = 0) :
    ({ p with threadListLock := tid }.goto tid { th with held := 1 } .out).Inv := by
  refine hp.update hth rfl (fun t ht hlive => ?_) (.inl rfl) hp.count (fun _ => hcount) ?_
  · refine iff_of_false (Ne.symm ht) ?_
    rintro rfl
    exact hlive hword
  · rintro th' ⟨⟩
    exact ⟨by simp, fun _ _ => by simpa using hcount, Nat.le_refl _, trivial⟩

/-- A nested call: the count grows with `held`. -/
theorem Inv.nestStore {count : Int} (hp : p.Inv) (hth : p.threads tid = some th)
    (hpc : th.pc = .nestStore count) (hlt : count < 2 ^ 31 - 1) : (p.next tid th).Inv := by
  have hinv := hp.thread _ _ hth
  obtain ⟨hheld, rfl⟩ : 0 < th.held ∧ count = p.tlLockCount := by
    have h := hinv.pc
    rwa [PcInv, hpc] at h
  have hdepth := hinv.depth hheld (by simp [hpc])
  have hcount : int32 (p.tlLockCount + 1) = p.tlLockCount + 1 :=
    int32_of_lt (by omega) (by omega)
  have hnext : p.next tid th =
      { p with tlLockCount := p.tlLockCount + 1 }.goto tid { th with held := th.held + 1 } .out := by
    rw [next, hpc, ← hcount]
  have hpos := hp.count.1
  rw [hnext]
  refine hp.update hth rfl (fun _ _ _ => Iff.rfl) (.inr (by omega)) ⟨?_, ?_⟩ (fun hword => ?_) ?_
  · show 0 ≤ p.tlLockCount + 1
    omega
  · show p.tlLockCount + 1 < 2 ^ 31
    omega
  · -- the word names a thread, and there is no thread 0
    have hzero : tid = 0 := (hinv.owner.mp hheld).symm.trans hword
    rw [hzero, hp.noZero] at hth
    cases hth
  · rintro th' ⟨⟩
    refine ⟨?_, fun _ _ => ?_, Nat.le_refl _, trivial⟩
    · show 0 < th.held + 1 ↔ p.threadListLock = tid
      exact iff_of_true (by omega) (hinv.owner.mp hheld)
    · show p.tlLockCount + 1 = ((th.held + 1 : Nat) : Int) - 1
      omega

/-- An unlock that is not the last one: the count falls with `held`, or with what is owed. -/
theorem Inv.unnestStore {count : Int} (hp : p.Inv) (hth : p.threads tid = some th)
    (hpc : th.pc = .unnestStore count) : (p.next tid th).Inv := by
  have hinv := hp.thread _ _ hth
  obtain ⟨hbusy, hne, rfl⟩ :
      0 < th.held + th.owed ∧ p.tlLockCount ≠ 0 ∧ count = p.tlLockCount := by
    have h := hinv.pc
    rwa [PcInv, hpc] at h
  have hdepth : 0 < th.held → p.tlLockCount = th.held - 1 := fun h => hinv.depth h (by simp [hpc])
  have hpos := hp.count
  have hcount : int32 (p.tlLockCount - 1) = p.tlLockCount - 1 :=
    int32_of_lt (by omega) (by omega)
  have hnext : p.next tid th =
      { p with tlLockCount := p.tlLockCount - 1 }.goto tid th.unlocked .out := by
    rw [next, hpc, ← hcount]
  rw [hnext]
  refine hp.update hth rfl (fun _ _ _ => Iff.rfl) (.inr hbusy) ⟨?_, ?_⟩ (fun hword => ?_) ?_
  · show 0 ≤ p.tlLockCount - 1
    omega
  · show p.tlLockCount - 1 < 2 ^ 31
    omega
  · exact absurd (hp.free hword) hne
  · rintro th' ⟨⟩
    by_cases hheld : 0 < th.held
    · have hd := hdepth hheld
      rw [Thread.unlocked, if_pos hheld]
      refine ⟨?_, fun _ _ => ?_, Nat.le_refl _, trivial⟩
      · show 0 < th.held - 1 ↔ p.threadListLock = tid
        exact iff_of_true (by omega) (hinv.owner.mp hheld)
      · show p.tlLockCount - 1 = ((th.held - 1 : Nat) : Int) - 1
        omega
    · rw [Thread.unlocked, if_neg hheld]
      exact ⟨hinv.owner, fun h => absurd h hheld, Nat.sub_le _ _, trivial⟩

/-- The last unlock: nothing is held, and the word is 0. -/
theorem Inv.release (hp : p.Inv) (hth : p.threads tid = some th) (hpc : th.pc = .release) :
    (p.next tid th).Inv := by
  have hinv := hp.thread _ _ hth
  obtain ⟨hbusy, hzero⟩ : 0 < th.held + th.owed ∧ p.tlLockCount = 0 := by
    have h := hinv.pc
    rwa [PcInv, hpc] at h
  have hnext : p.next tid th = { p with threadListLock := 0 }.goto tid th.unlocked .wake := by
    rw [next, hpc]
  have hnz : tid ≠ 0 := by
    rintro rfl
    simp [hp.noZero] at hth
  rw [hnext]
  refine hp.update hth rfl (fun t ht hlive => ?_) (.inl rfl) hp.count (fun _ => hzero) ?_
  · -- a live thread that the word names is the one that unlocks
    refine iff_of_false ?_ ?_
    · rintro rfl
      exact hlive hp.noZero
    · intro hword
      obtain ⟨th', hth'⟩ := Option.ne_none_iff_exists'.mp hlive
      have hheld' := (hp.thread _ _ hth').owner.mpr hword
      exact ht (hp.unique hth hth' hbusy (by omega))
  · rintro th' ⟨⟩
    by_cases hheld : 0 < th.held
    · have hd := hinv.depth hheld (by simp [hpc])
      have hone : th.held = 1 := by omega
      rw [Thread.unlocked, if_pos hheld, hone]
      exact ⟨iff_of_false (by simp) (Ne.symm hnz), fun h => absurd h (by simp),
        Nat.le_refl _, trivial⟩
    · rw [Thread.unlocked, if_neg hheld]
      exact ⟨iff_of_false hheld (Ne.symm hnz), fun h => absurd h hheld, Nat.sub_le _ _, trivial⟩

/-- `__pthread_exit` clears the count. -/
theorem Inv.pthreadExit (hp : p.Inv) (hth : p.threads tid = some th) (hheld : 0 < th.held) :
    ({ p with tlLockCount := 0 }.goto tid th .exit).Inv := by
  have hinv := hp.thread _ _ hth
  refine hp.update hth rfl (fun _ _ _ => Iff.rfl) (.inr (by omega)) ⟨?_, ?_⟩ (fun _ => rfl) ?_
  · exact Int.le_refl 0
  · show (0 : Int) < 2 ^ 31
    decide
  · rintro th' ⟨⟩
    exact ⟨hinv.owner, fun _ h => absurd rfl h, Nat.le_refl _, hheld, rfl⟩

/-- A thread ends and leaves the variables as they are. -/
theorem Inv.drop (hp : p.Inv) (hth : p.threads tid = some th) : (p.drop tid).Inv :=
  hp.update hth rfl (fun _ _ _ => Iff.rfl) (.inl rfl) hp.count hp.free (by rintro th' ⟨⟩)

/-- A thread ends after `__pthread_exit`, and the kernel clears the word. -/
theorem Inv.cleared (hp : p.Inv) (hth : p.threads tid = some th) (hpc : th.pc = .exit) :
    ({ p with threadListLock := 0 }.drop tid).Inv := by
  have hinv := hp.thread _ _ hth
  obtain ⟨hheld, hzero⟩ : 0 < th.held ∧ p.tlLockCount = 0 := by
    have h := hinv.pc
    rwa [PcInv, hpc] at h
  refine hp.update hth rfl (fun t ht hlive => ?_) (.inl rfl) hp.count (fun _ => hzero)
    (by rintro th' ⟨⟩)
  refine iff_of_false ?_ ?_
  · rintro rfl
    exact hlive hp.noZero
  · rw [hinv.owner.mp hheld]
    exact Ne.symm ht

/-- **The next access of a thread keeps the invariant.** -/
theorem Inv.next (hp : p.Inv) (hth : p.threads tid = some th) (he : p.Enabled th .next)
    (hok : p.Tidy th .next) : (p.next tid th).Inv := by
  have hinv := hp.thread _ _ hth
  have hpcInv := hinv.pc
  cases hpc : th.pc with
  | out => simp [Enabled, hpc] at he
  | tgkill val => simp [Enabled, hpc] at he
  | exit => simp [Enabled, hpc] at he
  | lock =>
    rw [Process.next, hpc]
    refine hp.goto hth (by simp [hpc]) ?_
    by_cases hword : p.threadListLock = tid
    · rw [if_pos hword]
      exact hinv.owner.mpr hword
    · rw [if_neg hword]
      trivial
  | nest =>
    rw [PcInv, hpc] at hpcInv
    rw [Process.next, hpc]
    exact hp.goto hth (by simp [hpc]) ⟨hpcInv, rfl⟩
  | nestStore count =>
    rw [Tidy, hpc] at hok
    exact hp.nestStore hth hpc hok
  | acquire =>
    rw [Process.next, hpc]
    by_cases hword : p.threadListLock = 0
    · simp only [if_pos hword]
      exact hp.acquired hth (by rw [hword]; exact hp.noZero) (hp.free hword)
    · simp only [if_neg hword]
      exact hp.goto hth (by simp [hpc]) trivial
  | takeOver val =>
    rw [PcInv, hpc] at hpcInv
    rw [Tidy, hpc] at hok
    rw [Process.next, hpc]
    by_cases hword : p.threadListLock = val
    · -- the owner that `tgkill` did not find is gone, and its count is 0
      simp only [if_pos hword]
      exact hp.acquired hth (by rw [hword]; exact hpcInv) (hok.resolve_left (not_not_intro hword))
    · simp only [if_neg hword]
      exact hp.goto hth (by simp [hpc]) trivial
  | spin val spins =>
    rw [Process.next, hpc]
    refine hp.goto hth (by simp [hpc]) ?_
    split <;> trivial
  | spinRead val spins =>
    rw [Process.next, hpc]
    refine hp.goto hth (by simp [hpc]) ?_
    split <;> trivial
  | incWaiters val =>
    rw [Process.next, hpc]
    exact hp.quiet hth (by simp [hpc]) rfl rfl rfl trivial
  | futexWait val =>
    rw [Process.next, hpc]
    refine hp.goto hth (by simp [hpc]) ?_
    split <;> trivial
  | decWaiters =>
    rw [Process.next, hpc]
    exact hp.quiet hth (by simp [hpc]) rfl rfl rfl trivial
  | unlock =>
    rw [PcInv, hpc] at hpcInv
    rw [Process.next, hpc]
    refine hp.goto hth (by simp [hpc]) ?_
    by_cases hcount : p.tlLockCount ≠ 0
    · rw [if_pos hcount]
      exact ⟨hpcInv, hcount⟩
    · rw [if_neg hcount]
      exact ⟨hpcInv, not_ne_iff.mp hcount⟩
  | unnest =>
    rw [PcInv, hpc] at hpcInv
    rw [Process.next, hpc]
    exact hp.goto hth (by simp [hpc]) ⟨hpcInv.1, hpcInv.2, rfl⟩
  | unnestStore count => exact hp.unnestStore hth hpc
  | release => exact hp.release hth hpc
  | wake =>
    rw [Process.next, hpc]
    exact hp.goto hth (by simp [hpc]) trivial

/-- **A step keeps the invariant of its process.** -/
theorem Inv.step {act : Act} (hp : p.Inv) (hth : p.threads tid = some th)
    (he : p.Enabled th act) (hok : p.Tidy th act) : (p.step tid th act).Inv := by
  cases act with
  | callLock =>
    have hpc : th.pc = .out := he
    exact hp.goto hth (by simp [hpc]) trivial
  | callUnlock =>
    obtain ⟨hpc, hbusy⟩ : th.pc = .out ∧ 0 < th.held + th.owed := he
    exact hp.goto hth (by simp [hpc]) hbusy
  | next => exact hp.next hth he hok
  | tgkill esrch =>
    cases hpc : th.pc with
    | tgkill val =>
      have hdead : esrch = true → p.threads val = none := by simpa [Enabled, hpc] using he
      rw [Process.step, hpc]
      refine hp.goto hth (by simp [hpc]) ?_
      cases esrch with
      | false => trivial
      | true => exact hdead rfl
    | _ => simp [Enabled, hpc] at he
  | pthreadExit => exact hp.pthreadExit hth he.2
  | sysExit cleared =>
    cases cleared with
    | false => exact hp.drop hth
    | true => exact hp.cleared hth he
  | die => exact hp.drop hth
  | fork child => exact hp

/-- **The new process of a fork has the invariant.** Its thread owns nothing yet. -/
theorem Inv.forked {child : Nat} (hp : p.Inv) (hzero : child ≠ 0)
    (hword : p.threadListLock ≠ child) : (p.forked th child).Inv where
  noZero := by simp [Process.forked, hzero.symm]
  count := hp.count
  free := hp.free
  thread t th' ht := by
    have hlive : ∀ t', (p.forked th child).threads t' ≠ none → t' = child := by
      intro t' ht'
      by_contra hne
      simp [Process.forked, hne] at ht'
    obtain rfl : t = child := hlive t (by simp [ht])
    have hself : th' = { owed := th.held + th.owed } := by simpa [Process.forked] using ht.symm
    subst hself
    exact ⟨iff_of_false (by simp) hword, fun h => absurd h (by simp), fun _ => hlive, trivial⟩

/-! ## What an unlock leaves -/

theorem step_threads_of_ne {act : Act} {t : Nat} (h : t ≠ tid) :
    (p.step tid th act).threads t = p.threads t := by
  have hupdate : ∀ o : Option Thread, Function.update p.threads tid o t = p.threads t :=
    fun o => Function.update_of_ne h ..
  cases act with
  | next =>
    rw [step, next]
    split <;> (try split) <;> first | rfl | exact hupdate _
  | tgkill esrch =>
    rw [step]
    split <;> first | rfl | exact hupdate _
  | sysExit cleared => cases cleared <;> exact hupdate _
  | fork child => rfl
  | _ => exact hupdate _

/-- Only an unlock takes from what a thread holds. -/
theorem next_held (hth : p.threads tid = some th) (h : (p.next tid th).threads tid = some th')
    (hheld : 0 < th.held) (hzero : th'.held = 0) :
    th.pc = .release ∨ ∃ count, th.pc = .unnestStore count ∧ th.held = 1 := by
  have hgoto : ∀ (q : Process) (th₀ : Thread) (pc : Pc), 0 < th₀.held →
      (q.goto tid th₀ pc).threads tid ≠ some th' := by
    intro q th₀ pc hpos heq
    obtain rfl : { th₀ with pc := pc } = th' := by simpa using heq
    exact absurd hzero (by simpa using Nat.ne_of_gt hpos)
  rw [next] at h
  split at h
  case h_13 count hpc =>
    refine .inr ⟨count, hpc, ?_⟩
    by_contra hne
    refine hgoto _ _ _ ?_ h
    rw [Thread.unlocked, if_pos hheld]
    show 0 < th.held - 1
    omega
  case h_14 hpc => exact .inl hpc
  all_goals exfalso
  case h_16 | h_17 | h_18 =>
    rw [hth] at h
    cases h
    omega
  all_goals
    try split at h
    all_goals exact hgoto _ _ _ (by first | exact hheld | exact Nat.succ_pos _) h

/-- **A step that leaves a thread with nothing held leaves the word 0.** -/
theorem Inv.released {act : Act} (hp : p.Inv) (hth : p.threads tid = some th)
    (he : p.Enabled th act) : p.Released (p.step tid th act) := by
  rintro t th' ⟨th₀, hth₀, hheld⟩ hth' hzero
  by_cases ht : t = tid
  · subst ht
    obtain rfl : th = th₀ := Option.some.inj (hth.symm.trans hth₀)
    have hinv := hp.thread _ _ hth
    have hgoto : ∀ (q : Process) (pc : Pc), (q.goto t th pc).threads t ≠ some th' := by
      intro q pc heq
      obtain rfl : { th with pc := pc } = th' := by simpa using heq
      exact absurd hzero (by simpa using Nat.ne_of_gt hheld)
    cases act with
    | next =>
      rcases next_held hth hth' hheld hzero with hpc | ⟨count, hpc, hone⟩
      · show (p.next t th).threadListLock = 0
        rw [Process.next, hpc]
        rfl
      · -- with the count 1 more is held than this unlock gives back
        have hpcInv := hinv.pc
        have hdepth := hinv.depth hheld (by simp [hpc])
        rw [PcInv, hpc] at hpcInv
        omega
    | tgkill esrch =>
      cases hpc : th.pc with
      | tgkill val =>
        rw [Process.step, hpc] at hth'
        exact absurd hth' (hgoto _ _)
      | _ => simp [Enabled, hpc] at he
    | sysExit cleared => cases cleared <;> simp [Process.step, Process.drop] at hth'
    | die => simp [Process.step, Process.drop] at hth'
    | fork child =>
      obtain rfl : th = th' := Option.some.inj (hth.symm.trans hth')
      omega
    | _ => exact absurd hth' (hgoto _ _)
  · rw [step_threads_of_ne ht, hth₀] at hth'
    cases hth'
    omega

end Process

namespace World

/-- Every process has the invariant. -/
def Inv (w : World) : Prop := ∀ pid p, w pid = some p → p.Inv

/-- The step meets the condition in the process it belongs to. -/
def Tidy (w : World) (e : Event) : Prop :=
  ∀ actor ∈ w.actor e, actor.1.Tidy actor.2 e.act

instance (w : World) (e : Event) : Decidable (w.Tidy e) :=
  inferInstanceAs (Decidable (∀ actor ∈ w.actor e, actor.1.Tidy actor.2 e.act))

/-- One owner in each process. -/
def Exclusive (w : World) : Prop := ∀ pid p, w pid = some p → p.Exclusive

/-- What has been unlocked as often as it was locked is free. -/
def Released (w w' : World) : Prop :=
  ∀ pid p p', w pid = some p → w' pid = some p' → p.Released p'

instance (w : World) (e : Event) : Decidable ((threadList.restrict Tidy).enabled w e) :=
  inferInstanceAs (Decidable (w.Enabled e ∧ w.Tidy e))

theorem actor_eq_some (h : w.actor e = some (p, th)) :
    w e.pid = some p ∧ p.threads e.tid = some th := by
  obtain ⟨p₀, hp₀, h⟩ := Option.bind_eq_some_iff.mp h
  obtain ⟨th₀, hth₀, h⟩ := Option.bind_eq_some_iff.mp h
  cases h
  exact ⟨hp₀, hth₀⟩

/-- A process after a step is as it was, or has made the step, or is new. -/
theorem step_cases {pid : Nat} (he : w.Enabled e) (h : w.step e pid = some p') :
    ∃ p th, w.actor e = some (p, th) ∧ p.Enabled th e.act ∧
      (w pid = some p' ∨ pid = e.pid ∧ p' = p.step e.tid th e.act ∨
        ∃ child, e.act = .fork child ∧ w child = none ∧ pid = child ∧ p' = p.forked th child) := by
  cases hactor : w.actor e with
  | none => simp [Enabled, hactor] at he
  | some pth =>
    obtain ⟨p, th⟩ := pth
    simp only [Enabled, hactor] at he
    obtain ⟨hen, hnew⟩ := he
    refine ⟨p, th, rfl, hen, ?_⟩
    simp only [step, hactor] at h
    cases hact : e.act with
    | fork child =>
      simp only [hact] at h hnew
      by_cases hpid : pid = child
      · subst hpid
        rw [Function.update_self] at h
        exact .inr (.inr ⟨pid, rfl, Option.isNone_iff_eq_none.mp hnew, rfl, Option.some.inj h.symm⟩)
      · rw [Function.update_of_ne hpid] at h
        exact .inl h
    | _ =>
      simp only [hact] at h
      by_cases hpid : pid = e.pid
      · subst hpid
        rw [Function.update_self] at h
        exact .inr (.inl ⟨rfl, Option.some.inj h.symm⟩)
      · rw [Function.update_of_ne hpid] at h
        exact .inl h

theorem Init.inv (h : w.Init) : w.Inv := by
  intro pid p hp
  obtain ⟨hword, hcount, hzero, hth⟩ := h pid p hp
  refine ⟨hzero, by rw [hcount]; decide, fun _ => hcount, fun tid th ht => ?_⟩
  obtain rfl := hth tid th ht
  have hne : tid ≠ 0 := by
    rintro rfl
    simp [hzero] at ht
  refine ⟨iff_of_false (by simp) ?_, fun h => absurd h (by simp), fun h => absurd h (by simp),
    trivial⟩
  rw [hword]
  exact hne.symm

/-- **A step that meets the condition keeps the invariant of every process.** -/
theorem Inv.step (hw : w.Inv) (he : w.Enabled e) (hok : w.Tidy e) : (w.step e).Inv := by
  intro pid p' hp'
  obtain ⟨p, th, hactor, hen, h⟩ := step_cases he hp'
  obtain ⟨hp, hth⟩ := actor_eq_some hactor
  have htidy : p.Tidy th e.act := hok (p, th) hactor
  rcases h with h | ⟨-, rfl⟩ | ⟨child, hact, -, -, rfl⟩
  · exact hw pid p' h
  · exact (hw _ _ hp).step hth hen htidy
  · rw [hact] at hen htidy
    exact (hw _ _ hp).forked hen.2.1 htidy

theorem Inv.released (hw : w.Inv) (he : w.Enabled e) : w.Released (w.step e) := by
  intro pid p₀ p' hp₀ hp'
  obtain ⟨p, th, hactor, hen, h⟩ := step_cases he hp'
  obtain ⟨hp, hth⟩ := actor_eq_some hactor
  rcases h with h | ⟨rfl, rfl⟩ | ⟨child, -, hnone, rfl, -⟩
  · -- the process has not changed
    obtain rfl : p₀ = p' := Option.some.inj (hp₀.symm.trans h)
    rintro t th' ⟨th₀, hth₀, hheld⟩ hth' hzero
    obtain rfl : th₀ = th' := Option.some.inj (hth₀.symm.trans hth')
    omega
  · obtain rfl : p = p₀ := Option.some.inj (hp.symm.trans hp₀)
    exact (hw _ _ hp).released hth hen
  · rw [hnone] at hp₀
    cases hp₀

end World

/-- **One owner, and a free lock after its last unlock.** In a run whose steps all meet the
condition, at most one thread of a process owns the lock in any state, the lock word names it, and
whatever step comes next, a thread that has unlocked as often as it has locked leaves the lock
free. -/
theorem thread_list_lock_kept {w₀ w : World} {es : List Event} (hinit : w₀.Init)
    (hr : (threadList.restrict World.Tidy).Run w₀ es w) :
    w.Exclusive ∧ (∀ pid p tid, w pid = some p → p.Owns tid → p.threadListLock = tid) ∧
      ∀ e, w.Enabled e → w.Released (w.step e) := by
  have hw : w.Inv := by
    refine hr.invariant ?_ hinit.inv
    rintro u e hu ⟨he, hok⟩
    exact hu.step he hok
  refine ⟨fun pid p hp => (hw pid p hp).exclusive, ?_, fun e he => hw.released he⟩
  rintro pid p tid hp ⟨th, hth, hheld⟩
  exact ((hw pid p hp).thread _ _ hth).owner.mp hheld

/-! ## A count that is taken over -/

/-- One process with two threads. -/
def twoThreads : World
  | 1 => some { threads := fun tid => if tid = 1 ∨ tid = 2 then some {} else none }
  | _ => none

theorem twoThreads_init : twoThreads.Init := by
  intro pid p hp
  unfold twoThreads at hp
  split at hp
  · cases hp
    refine ⟨rfl, rfl, rfl, fun tid th hth => ?_⟩
    by_cases htid : tid = 1 ∨ tid = 2
    · exact (Option.some.inj ((if_pos htid).symm.trans hth)).symm
    · exact absurd ((if_neg htid).symm.trans hth) (by simp)
  · cases hp

/-- Thread 1 locks, with or without a nested call, and thread 2 forks; the child takes the lock over
and comes to the end of its unlock. -/
def forkWhileLocked (nested : Bool) : List Event :=
  [⟨1, 1, .callLock⟩, ⟨1, 1, .next⟩, ⟨1, 1, .next⟩] ++
  (if nested then [⟨1, 1, .callLock⟩, ⟨1, 1, .next⟩, ⟨1, 1, .next⟩, ⟨1, 1, .next⟩] else []) ++
  [⟨1, 2, .fork 3⟩, ⟨3, 3, .callLock⟩, ⟨3, 3, .next⟩, ⟨3, 3, .next⟩, ⟨3, 3, .tgkill true⟩,
    ⟨3, 3, .next⟩, ⟨3, 3, .callUnlock⟩, ⟨3, 3, .next⟩] ++
  (if nested then [⟨3, 3, .next⟩] else [])

theorem takeover_kept :
    let w := (forkWhileLocked false).foldl World.step twoThreads
    w.Exclusive ∧ (∀ pid p tid, w pid = some p → p.Owns tid → p.threadListLock = tid) ∧
      ∀ e, w.Enabled e → w.Released (w.step e) :=
  thread_list_lock_kept twoThreads_init (System.Run.of_enabledAll (by decide))

/-- The child takes the lock over from an owner that has locked twice. It unlocks once, and the lock
is still its own. -/
theorem takeover_keeps_count :
    ¬ ∀ w₀ es w, w₀.Init → threadList.Run w₀ es w →
      w.Exclusive ∧ (∀ pid p tid, w pid = some p → p.Owns tid → p.threadListLock = tid) ∧
        ∀ e, w.Enabled e → w.Released (w.step e) := by
  intro h
  have hrun : threadList.Run twoThreads (forkWhileLocked true) _ :=
    System.Run.of_enabledAll (by decide)
  obtain ⟨-, -, hreleased⟩ := h _ _ _ twoThreads_init hrun
  have hword := hreleased ⟨3, 3, .next⟩ (by decide) 3 _ _ rfl rfl 3 _ ⟨_, rfl, by decide⟩ rfl rfl
  exact absurd hword (by decide)

end Musl
