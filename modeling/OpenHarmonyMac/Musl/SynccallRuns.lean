import OpenHarmonyMac.Musl.Synccall

/-!
# Runs of `__synccall`

* `exists_enabled` — the call is never stuck
* `progress_caller`, `progress_handler` — every step is one towards the end, or the signal is to be
  sent again
* `serial` — up to the release, one thread at a time makes the callback
* `synccall_completes` — the call comes to its end, where each thread has made the callback once
-/

namespace Musl.Synccall

open Infra

variable {τ : Type} [DecidableEq τ]

/-! ## What every run keeps -/

/-- The caller comes out of the first loop with all threads, or the call is aborted. -/
def Process.Complete (s : Process τ) : Prop :=
  s.aborted = true ∨ s.caller = .signal ∨ s.caller = .waitCaught ∨ s.threads.length ≤ s.count

/-- What holds in every state of a run. -/
structure Invariant [Fintype τ] (s : Process τ) : Prop where
  balanced : Balanced s
  nodup : s.threads.Nodup
  mem_threads : ∀ t, t ∈ s.threads
  complete : s.Complete

variable {s s₀ : Process τ} {e : Act τ} {es : List (Act τ)} {t : τ} {answer : Int}

/-- A handler leaves alone what belongs to the caller. -/
theorem handlerNext_same (s : Process τ) (t : τ) (answer : Int) :
    (s.handlerNext t answer).threads = s.threads ∧ (s.handlerNext t answer).count = s.count ∧
      (s.handlerNext t answer).aborted = s.aborted ∧
      (s.handlerNext t answer).caller = s.caller := by
  unfold Process.handlerNext
  cases s.pc t with
  | signalled =>
    simp only
    split <;> exact ⟨rfl, rfl, rfl, rfl⟩
  | callback body =>
    simp only
    cases hbody : s.doSetxid (some t) answer body with
    | mk s' next =>
      have hsame := doSetxid_same hbody
      cases next <;> exact ⟨hsame.threads, hsame.count, hsame.aborted, hsame.caller⟩
  | _ => exact ⟨rfl, rfl, rfl, rfl⟩

theorem callerStep_threads {s' : Process τ} (h : CallerStep s answer s') :
    s'.threads = s.threads := by
  cases h with
  | body _ _ hbody => exact (doSetxid_same hbody).threads
  | leave _ hbody => exact (doSetxid_same hbody).threads
  | _ => rfl

theorem complete_caller {s' : Process τ} (h : s.Complete) (hstep : CallerStep s answer s') :
    s'.Complete := by
  have hkeep : s.caller ≠ .signal → s.caller ≠ .waitCaught →
      s.aborted = true ∨ s.threads.length ≤ s.count := by
    intro hsignal hwait
    rcases h with h | h | h | h
    · exact Or.inl h
    · exact absurd h hsignal
    · exact absurd h hwait
    · exact Or.inr h
  cases hstep with
  | signal => exact Or.inr (Or.inr (Or.inl rfl))
  | again hpc => exact Or.inr (Or.inl hpc)
  | abort => exact Or.inl rfl
  | caughtAll _ hall => exact Or.inr (Or.inr (Or.inr (List.getElem?_eq_none_iff.mp hall)))
  | caught => exact Or.inr (Or.inl rfl)
  | body hpc _ hbody =>
    have hsame := doSetxid_same hbody
    rcases hkeep (by rw [hpc]; nofun) (by rw [hpc]; nofun) with h | h
    · exact Or.inl (hsame.aborted.trans h)
    · exact Or.inr (Or.inr (Or.inr (hsame.threads ▸ hsame.count ▸ h)))
  | leave hpc hbody =>
    have hsame := doSetxid_same hbody
    rcases hkeep (by rw [hpc]; nofun) (by rw [hpc]; nofun) with h | h
    · exact Or.inl (hsame.aborted.trans h)
    · exact Or.inr (Or.inr (Or.inr (hsame.threads ▸ hsame.count ▸ h)))
  | post hpc | ran hpc | start hpc | skip hpc | release hpc | releasedAll hpc | gone hpc
  | returned hpc =>
    rcases hkeep (by rw [hpc]; nofun) (by rw [hpc]; nofun) with h | h
    · exact Or.inl h
    · exact Or.inr (Or.inr (Or.inr h))

section Runs

variable [Fintype τ]

theorem invariant_initial (h₀ : synccall.init s₀) : Invariant s₀ := by
  obtain ⟨hs₀, hnodup, hmem⟩ := h₀
  have hzero : ∀ {w : HandlerPc → Nat}, w .running = 0 → tally w s₀.pc = 0 := fun hw =>
    tally_eq_zero_iff.mpr fun t => by
      rw [hs₀]
      exact hw
  have hcaller : s₀.caller = .signal := by rw [hs₀]
  have hcount : s₀.count = 0 := by rw [hs₀]
  refine ⟨⟨?_, ?_, ?_, fun _ => hzero rfl, ?_, ?_, ?_⟩, hnodup, hmem, Or.inr (Or.inl hcaller)⟩
  · rw [hzero rfl, hs₀]
    rfl
  · rw [hzero rfl, hs₀]
    rfl
  · rw [hzero rfl, hzero rfl, hs₀]
    rfl
  · rw [hcaller]
    trivial
  · intro t _
    rw [hs₀]
  · intro t ht
    rw [hs₀] at ht
    cases ht

theorem invariant_step (h : Invariant s) (he : synccall.enabled s e) :
    Invariant (synccall.step s e) := by
  cases e with
  | caller answer =>
    have hstep := callerStep he
    have hthreads := callerStep_threads hstep
    refine ⟨balanced_caller h.balanced h.nodup he, ?_, ?_, complete_caller h.complete hstep⟩
    · show (s.next answer).threads.Nodup
      rw [hthreads]
      exact h.nodup
    · show ∀ t, t ∈ (s.next answer).threads
      rw [hthreads]
      exact h.mem_threads
  | handler t answer =>
    obtain ⟨hthreads, hcount, haborted, hcaller⟩ := handlerNext_same s t answer
    refine ⟨balanced_handler h.balanced he, ?_, ?_, ?_⟩
    · show (s.handlerNext t answer).threads.Nodup
      rw [hthreads]
      exact h.nodup
    · show ∀ t', t' ∈ (s.handlerNext t answer).threads
      rw [hthreads]
      exact h.mem_threads
    · show (s.handlerNext t answer).Complete
      unfold Process.Complete
      rw [hthreads, hcount, haborted, hcaller]
      exact h.complete

theorem invariant_run (h₀ : synccall.init s₀) (hr : synccall.Run s₀ es s) : Invariant s :=
  hr.invariant (fun _ _ => invariant_step) (invariant_initial h₀)

/-! ## The call is never stuck -/

omit [DecidableEq τ] [Fintype τ] in
/-- A thread that owes a post does not wait. -/
theorem ready_of_active (h : 0 < (s.pc t).active) : s.HandlerReady t 0 := by
  unfold Process.HandlerReady
  cases hpc : s.pc t with
  | callback body => cases body <;> first | exact trivial | exact Int.le_refl 0
  | postRan => trivial
  | postGone => trivial
  | _ =>
    rw [hpc] at h
    exact absurd h (Nat.lt_irrefl 0)

omit [DecidableEq τ] [Fintype τ] in
/-- A token goes to each thread that has not had two. -/
theorem ready_of_due (h : 0 < (s.pc t).due) (hsem : 0 < s.targetSem) : s.HandlerReady t 0 := by
  unfold Process.HandlerReady
  cases hpc : s.pc t with
  | waitFirst => exact hsem
  | waitSecond => exact hsem
  | callback body => cases body <;> first | exact trivial | exact Int.le_refl 0
  | postRan => trivial
  | _ =>
    rw [hpc] at h
    exact absurd h (Nat.lt_irrefl 0)

omit [DecidableEq τ] in
/-- Where there is a token or a thread that owes a post, and threads wait for more tokens than there
are, the next step can be made. -/
theorem exists_ready (h : Balanced s) (hsem : s.callerSem = 0)
    (htokens : 0 < s.callerSem + s.targetSem + tally HandlerPc.active s.pc)
    (hposts : s.caller.posts s.count ≤ 2 * tally HandlerPc.caught s.pc) :
    ∃ t, s.HandlerReady t 0 := by
  rcases Nat.eq_zero_or_pos (tally HandlerPc.active s.pc) with hactive | hactive
  · have htarget : 0 < s.targetSem := by omega
    have hdue : tally HandlerPc.takes s.pc + tally HandlerPc.due s.pc =
        tally HandlerPc.caught s.pc + tally HandlerPc.caught s.pc :=
      tally_add_congr HandlerPc.takes_add_due
    have hpos : 0 < tally HandlerPc.due s.pc := by
      have := h.targetSem
      omega
    obtain ⟨t, ht⟩ := exists_of_tally_pos hpos
    exact ⟨t, ready_of_due ht htarget⟩
  · obtain ⟨t, ht⟩ := exists_of_tally_pos hactive
    exact ⟨t, ready_of_active ht⟩

/-- While the caller waits for `caller_sem`, it has a token or a handler comes closer to a post. -/
theorem exists_enabled (h : Balanced s) (hkilled : s.killed = false)
    (hcaller : s.caller ≠ .returned) : ∃ e, synccall.enabled s e := by
  have hhandler : (∃ t, s.HandlerReady t 0) → ∃ e, synccall.enabled s e := by
    rintro ⟨t, ht⟩
    exact ⟨.handler t 0, hkilled, ht⟩
  have hready : s.CallerReady 0 → ∃ e, synccall.enabled s e := fun hready =>
    ⟨.caller 0, hkilled, hready⟩
  have htokens := h.tokens
  have hposts := h.targetSem
  have hcaught := h.caught_eq
  have hwithin := h.within
  unfold Process.CallerReady at hready
  cases hpc : s.caller with
  | returned => exact absurd hpc hcaller
  | waitCaught =>
    rw [hpc] at hready hposts
    rcases Nat.eq_zero_or_pos s.callerSem with hsem | hsem
    · -- the signal is still on its way
      have hsent := h.sent
      have htaken := h.callerSem
      have hpost : tally HandlerPc.posts s.pc + tally HandlerPc.active s.pc =
          tally HandlerPc.takes s.pc + tally HandlerPc.caught s.pc :=
        tally_add_congr HandlerPc.posts_add_active
      rw [hpc] at hsent htaken
      simp only [CallerPc.posts, CallerPc.takes, CallerPc.sent] at hposts hsent htaken
      rcases Nat.eq_zero_or_pos (tally HandlerPc.active s.pc) with hactive | hactive
      · have hawaited : 0 < tally HandlerPc.awaited s.pc := by omega
        obtain ⟨t, ht⟩ := exists_of_tally_pos hawaited
        refine hhandler ⟨t, ?_⟩
        unfold Process.HandlerReady
        cases hpc : s.pc t with
        | signalled => trivial
        | _ =>
          rw [hpc] at ht
          exact absurd ht (Nat.lt_irrefl 0)
      · obtain ⟨t, ht⟩ := exists_of_tally_pos hactive
        exact hhandler ⟨t, ready_of_active ht⟩
    · exact hready hsem
  | waitRan i =>
    have hcaught := hcaught (by simp [hpc])
    rw [hpc] at hready htokens hwithin
    have hi : i < s.count := hwithin
    simp only [CallerPc.posts, CallerPc.takes] at htokens
    rcases Nat.eq_zero_or_pos s.callerSem with hsem | hsem
    · refine hhandler (exists_ready h hsem (by omega) ?_)
      rw [hpc]
      show i + 1 ≤ _
      omega
    · exact hready hsem
  | waitGone i =>
    have hcaught := hcaught (by simp [hpc])
    rw [hpc] at hready htokens
    simp only [CallerPc.posts, CallerPc.takes] at htokens
    rcases Nat.eq_zero_or_pos s.callerSem with hsem | hsem
    · by_cases hi : i < s.count
      · refine hhandler (exists_ready h hsem (by omega) ?_)
        rw [hpc]
        show 2 * s.count ≤ _
        omega
      · exact hready fun hlt => absurd hlt hi
    · exact hready fun _ => hsem
  | func body =>
    rw [hpc] at hready
    cases body <;> first | exact hready trivial | exact hready (Int.le_refl 0)
  | _ =>
    rw [hpc] at hready
    exact hready trivial

/-! ## Every step is one towards the end, or the signal is to be sent again -/

/-- How far a call of `do_setxid` is. -/
def Body.rank : Body → Nat
  | .read => 0
  | .syscall => 1
  | .check _ => 2
  | .store _ => 3

/-- How far a handler is. -/
def HandlerPc.rank : HandlerPc → Nat
  | .running => 0
  | .signalled => 1
  | .waitFirst => 2
  | .callback body => 3 + body.rank
  | .postRan => 7
  | .waitSecond => 8
  | .postGone => 9
  | .returned => 10

/-- How far the caller is, where there are `n` threads. -/
def CallerPc.rank (n count : Nat) : CallerPc → Nat
  | .signal => 2 * count
  | .waitCaught => 2 * count + 1
  | .post i => 2 * n + 1 + 2 * i
  | .waitRan i => 2 * n + 2 + 2 * i
  | .func body => 4 * n + 2 + body.rank
  | .release i => 4 * n + 6 + i
  | .waitGone i => 5 * n + 7 + i
  | .returned => 6 * n + 8

/-- The thread that `tkill` does not send the signal to, with the error `EAGAIN`. -/
def Process.refused (s : Process τ) : Act τ → List τ
  | .caller answer =>
    if s.caller = .signal ∧ answer = eagain then (s.threads[s.count]?).toList else []
  | .handler _ _ => []

omit [DecidableEq τ] in
def Process.progress (s : Process τ) : Nat :=
  s.caller.rank (Fintype.card τ) s.count + tally HandlerPc.rank s.pc + s.killed.toNat

omit [Fintype τ] in
/-- A call of `do_setxid` goes on, or it kills the process. -/
theorem doSetxid_rank {s' : Process τ} {x : Option τ} {body body' : Body}
    (hkilled : s.killed = false) (hbody : s.doSetxid x answer body = (s', some body')) :
    body.rank + s.killed.toNat < body'.rank + s'.killed.toNat := by
  rw [hkilled]
  cases body with
  | read =>
    unfold Process.doSetxid at hbody
    by_cases hret : s.ret < 0
    · simp only [if_pos hret] at hbody
      cases hbody
    · simp only [if_neg hret] at hbody
      cases hbody
      exact Nat.lt_add_right _ Nat.zero_lt_one
  | syscall =>
    cases hbody
    exact Nat.lt_add_right _ (Nat.lt_succ_self 1)
  | check r =>
    unfold Process.doSetxid at hbody
    by_cases hkill : r ≠ 0 ∧ s.ret = 0
    · simp only [if_pos hkill] at hbody
      cases hbody
      exact Nat.lt_succ_self _
    · simp only [if_neg hkill] at hbody
      cases hbody
      exact Nat.lt_add_right _ (Nat.lt_succ_self 2)
  | store r => cases hbody

omit [Fintype τ] in
theorem doSetxid_none_killed {s' : Process τ} {x : Option τ} {body : Body}
    (hbody : s.doSetxid x answer body = (s', none)) : s'.killed = s.killed := by
  unfold Process.doSetxid at hbody
  cases body with
  | read =>
    simp only at hbody
    split at hbody <;> cases hbody
    rfl
  | syscall => cases hbody
  | check r =>
    simp only at hbody
    split at hbody <;> cases hbody
  | store r =>
    cases hbody
    rfl

theorem Body.rank_le (body : Body) : body.rank ≤ 3 := by
  cases body <;> simp [Body.rank]

theorem progress_handler (h : Balanced s) (he : s.Enabled (.handler t answer)) :
    s.progress < (s.handlerNext t answer).progress := by
  have hstep := handlerStep he (h.target t)
  have hmove : ∀ {s' : Process τ} {pc : HandlerPc}, s'.caller = s.caller → s'.count = s.count →
      s'.pc = Function.update s.pc t pc →
      (s.pc t).rank + s.killed.toNat < pc.rank + s'.killed.toNat → s.progress < s'.progress := by
    intro s' pc hcaller hcount hpc hrank
    have htally := tally_update HandlerPc.rank s.pc t pc
    unfold Process.progress
    rw [hcaller, hcount, hpc]
    omega
  generalize s.handlerNext t answer = s' at hstep
  cases hstep with
  | caught hpc | start hpc | skip hpc | ran hpc | released hpc | gone hpc =>
    refine hmove rfl rfl rfl ?_
    rw [hpc]
    exact Nat.add_lt_add_right (by decide) _
  | @body body body' s' hpc _ hbody =>
    have hsame := doSetxid_same hbody
    have hrank := doSetxid_rank he.1 hbody
    have hnext : (s'.goto t (.callback body')).pc = Function.update s.pc t (.callback body') := by
      rw [← hsame.pc]
      rfl
    refine hmove hsame.caller hsame.count hnext ?_
    rw [hpc]
    show 3 + body.rank + s.killed.toNat < 3 + body'.rank + s'.killed.toNat
    omega
  | @leave body s' hpc hbody =>
    have hsame := doSetxid_same hbody
    have hkilled := doSetxid_none_killed hbody
    have hle := body.rank_le
    have hnext : (s'.goto t .postRan).pc = Function.update s.pc t .postRan := by
      rw [← hsame.pc]
      rfl
    refine hmove hsame.caller hsame.count hnext ?_
    rw [hpc]
    show 3 + body.rank + s.killed.toNat < 7 + s'.killed.toNat
    rw [hkilled]
    omega

omit [DecidableEq τ] in
theorem Balanced.caught_le (h : Balanced s) (hcaller : s.caller ≠ .waitCaught) :
    s.count ≤ Fintype.card τ := by
  have hle : tally HandlerPc.caught s.pc ≤ Fintype.card τ * 1 :=
    tally_le_card fun pc => by cases pc <;> simp [HandlerPc.caught]
  rw [h.caught_eq hcaller] at hle
  omega

theorem progress_caller (h : Invariant s) (he : s.Enabled (.caller answer)) :
    s.progress < (s.next answer).progress + (s.refused (.caller answer)).length := by
  have hstep := callerStep he
  have hwithin := h.balanced.within
  have hle := h.balanced.caught_le
  have hmove : ∀ {s' : Process τ}, s'.pc = s.pc →
      s.caller.rank (Fintype.card τ) s.count + s.killed.toNat <
        s'.caller.rank (Fintype.card τ) s'.count + s'.killed.toNat →
      s.progress < s'.progress + (s.refused (.caller answer)).length := by
    intro s' hpc hrank
    refine Nat.lt_add_right _ ?_
    unfold Process.progress
    rw [hpc]
    omega
  generalize s.next answer = s' at hstep
  cases hstep with
  | @signal td hpc htd =>
    have htally := tally_update HandlerPc.rank s.pc td .signalled
    rw [(h.balanced.next_running h.nodup hpc htd).1] at htally
    refine Nat.lt_add_right _ ?_
    unfold Process.progress
    rw [hpc]
    simp only [CallerPc.rank, HandlerPc.rank] at htally ⊢
    omega
  | @again td hpc htd hanswer =>
    have hone : s.refused (.caller answer) = [td] := by
      rw [Process.refused, if_pos ⟨hpc, hanswer⟩, htd]
      rfl
    rw [hone]
    exact Nat.lt_succ_self _
  | abort hpc | caughtAll hpc =>
    have hle := hle (by rw [hpc]; nofun)
    refine hmove rfl ?_
    rw [hpc]
    show 2 * s.count + s.killed.toNat < 2 * Fintype.card τ + 1 + 2 * 0 + s.killed.toNat
    omega
  | caught hpc =>
    refine hmove rfl ?_
    rw [hpc]
    show 2 * s.count + 1 + s.killed.toNat < 2 * (s.count + 1) + s.killed.toNat
    omega
  | post hpc | ran hpc | release hpc | gone hpc =>
    refine hmove rfl ?_
    rw [hpc]
    simp only [CallerPc.rank]
    omega
  | start hpc | skip hpc | releasedAll hpc | returned hpc =>
    have hle := hle (by rw [hpc]; nofun)
    rw [hpc] at hwithin
    refine hmove rfl ?_
    rw [hpc]
    simp only [CallerPc.rank, CallerPc.Within, Body.rank] at hwithin ⊢
    omega
  | @body body body' s' hpc _ hbody =>
    have hsame := doSetxid_same hbody
    have hrank := doSetxid_rank he.1 hbody
    refine hmove hsame.pc ?_
    rw [hpc]
    simp only [CallerPc.rank]
    omega
  | @leave body s' hpc hbody =>
    have hsame := doSetxid_same hbody
    have hbound := body.rank_le
    refine hmove hsame.pc ?_
    rw [hpc, ← doSetxid_none_killed hbody]
    simp only [CallerPc.rank]
    omega

omit [DecidableEq τ] in
theorem progress_le (h : Balanced s) : s.progress ≤ 16 * Fintype.card τ + 9 := by
  have hrank : tally HandlerPc.rank s.pc ≤ Fintype.card τ * 10 :=
    tally_le_card fun pc => by
      cases pc with
      | callback body =>
        have := body.rank_le
        show 3 + body.rank ≤ 10
        omega
      | _ => decide
  have hkilled : s.killed.toNat ≤ 1 := Bool.toNat_le s.killed
  have hwithin := h.within
  have hcaller : s.caller.rank (Fintype.card τ) s.count ≤ 6 * Fintype.card τ + 8 := by
    have hle := h.caught_le
    cases hpc : s.caller with
    | waitCaught =>
      have hcaught : tally HandlerPc.caught s.pc ≤ Fintype.card τ * 1 :=
        tally_le_card fun pc => by cases pc <;> simp [HandlerPc.caught]
      have hawaited : tally HandlerPc.awaited s.pc ≤ Fintype.card τ * 1 :=
        tally_le_card fun pc => by cases pc <;> simp [HandlerPc.awaited]
      have hsent := h.sent
      rw [hpc] at hsent
      simp only [CallerPc.sent, CallerPc.rank] at hsent ⊢
      omega
    | func body =>
      have := body.rank_le
      simp only [CallerPc.rank]
      omega
    | _ =>
      have hle := hle (by simp [hpc])
      rw [hpc] at hwithin
      simp only [CallerPc.rank, CallerPc.Within] at hwithin ⊢
      omega
  unfold Process.progress
  omega

theorem run_length_le (h₀ : synccall.init s₀) (hr : synccall.Run s₀ es s) :
    es.length ≤ 16 * Fintype.card τ + 9 + (synccall.emitted Process.refused s₀ es).length := by
  have hprogress : ∀ (s : Process τ) e, Invariant s → synccall.enabled s e →
      s.progress < (synccall.step s e).progress + (s.refused e).length := by
    intro s e h he
    cases e with
    | caller answer => exact progress_caller h he
    | handler t answer => exact Nat.lt_add_right _ (progress_handler h.balanced he)
  have hlength := hr.length_le Process.progress (fun _ _ => invariant_step) hprogress
    (invariant_initial h₀)
  have hbound := progress_le (invariant_run h₀ hr).balanced
  omega

/-! ## One thread at a time -/

end Runs

/-- The thread makes the callback. -/
def Process.InCallback (s : Process τ) : Option τ → Prop
  | none => ∃ body, s.caller = .func body
  | some t => ∃ body, s.pc t = .callback body

/-- The caller has not begun to release the threads. -/
def CallerPc.holds : CallerPc → Bool
  | .release _ | .waitGone _ | .returned => false
  | _ => true

section Runs

variable [Fintype τ]

omit [DecidableEq τ] in
/-- Up to the release, the tokens of both semaphores and the threads that owe a post are one at
most, and none while the caller makes the callback. -/
theorem Balanced.active_le (h : Balanced s) (hholds : s.caller.holds = true) :
    tally HandlerPc.active s.pc ≤ 1 ∧
      ((∃ body, s.caller = .func body) → tally HandlerPc.active s.pc = 0) := by
  have htokens := h.tokens
  have hsent := h.sent
  cases hpc : s.caller with
  | release i | waitGone i | returned =>
    rw [hpc] at hholds
    cases hholds
  | signal | waitCaught | post i | waitRan i =>
    rw [hpc] at htokens hsent
    simp only [CallerPc.posts, CallerPc.takes, CallerPc.sent] at htokens hsent
    refine ⟨by omega, ?_⟩
    rintro ⟨body, hbody⟩
    cases hbody
  | func body =>
    rw [hpc] at htokens hsent
    simp only [CallerPc.posts, CallerPc.takes, CallerPc.sent] at htokens hsent
    exact ⟨by omega, fun _ => by omega⟩

theorem serial (h : Balanced s) (hholds : s.caller.holds = true) {x y : Option τ}
    (hx : s.InCallback x) (hy : s.InCallback y) : x = y := by
  obtain ⟨hle, hnone⟩ := h.active_le hholds
  have hactive : ∀ {t : τ}, s.InCallback (some t) → 0 < (s.pc t).active := by
    rintro t ⟨body, hbody⟩
    rw [hbody]
    exact Nat.zero_lt_one
  have hapart : ∀ {t : τ}, s.InCallback none → ¬ s.InCallback (some t) := by
    intro t hfunc ht
    have hpos := Nat.lt_of_lt_of_le (hactive ht) (le_tally HandlerPc.active s.pc t)
    rw [hnone hfunc] at hpos
    exact Nat.lt_irrefl 0 hpos
  cases x with
  | none =>
    cases y with
    | none => rfl
    | some t => exact absurd hy (hapart hx)
  | some t =>
    cases y with
    | none => exact absurd hx (hapart hy)
    | some u => rw [eq_of_tally_le_one hle (hactive hx) (hactive hy)]

end Runs

/-! ## Each thread makes the callback once -/

/-- The caller begins to make the callback. -/
def Process.nextBegins (s : Process τ) : List (Option τ) :=
  match s.caller with
  | .post i => if i < s.count ∨ s.aborted then [] else [none]
  | _ => []

/-- The thread begins to make the callback. -/
def Process.handlerBegins (s : Process τ) (t : τ) : List (Option τ) :=
  match s.pc t with
  | .waitFirst => if s.aborted then [] else [some t]
  | _ => []

/-- The thread that begins to make the callback in a step. -/
def Process.begins (s : Process τ) : Act τ → List (Option τ)
  | .caller _ => s.nextBegins
  | .handler t _ => s.handlerBegins t

/-- The handler has come to the callback. -/
def HandlerPc.begun : HandlerPc → Nat
  | .running | .signalled | .waitFirst => 0
  | _ => 1

/-- The caller has come to the callback. -/
def CallerPc.begun : CallerPc → Nat
  | .signal | .waitCaught | .post _ | .waitRan _ => 0
  | _ => 1

/-- How often the thread has begun the callback, by where it is. -/
def Process.begun (s : Process τ) : Option τ → Nat
  | none => if s.aborted then 0 else s.caller.begun
  | some t => if s.aborted then 0 else (s.pc t).begun

omit [DecidableEq τ] in
theorem begun_aborted (h : s.aborted = true) (x : Option τ) : s.begun x = 0 := by
  cases x <;> simp [Process.begun, h]

section Runs

variable [Fintype τ]

theorem begun_handler (h : Balanced s) (he : s.Enabled (.handler t answer)) (x : Option τ) :
    (s.handlerNext t answer).begun x = s.begun x + (s.handlerBegins t).count x := by
  have hstep := handlerStep he (h.target t)
  obtain ⟨-, -, haborted, hcaller⟩ := handlerNext_same s t answer
  have hmove : ∀ {s' : Process τ} {pc : HandlerPc} {xs : List (Option τ)},
      s'.aborted = s.aborted → s'.caller = s.caller → s'.pc = Function.update s.pc t pc →
      s.aborted = false → pc.begun = (s.pc t).begun + xs.count (some t) →
      (∀ y, y ≠ some t → xs.count y = 0) → s'.begun x = s.begun x + xs.count x := by
    intro s' pc xs haborted hcaller hpc hgo hbegun hother
    unfold Process.begun
    rw [haborted, hgo]
    cases x with
    | none => rw [hcaller, hother none nofun]; rfl
    | some u =>
      simp only [Bool.false_eq_true, if_false, hpc]
      by_cases heq : u = t
      · rw [heq, Function.update_self, hbegun]
      · rw [Function.update_of_ne heq, hother (some u) fun h => heq (Option.some.inj h)]
        rfl
  cases hgo : s.aborted with
  | true =>
    have hnone : s.handlerBegins t = [] := by
      unfold Process.handlerBegins
      cases hpc : s.pc t with
      | waitFirst => exact if_pos hgo
      | _ => rfl
    rw [begun_aborted (haborted.trans hgo), begun_aborted hgo, hnone]
    rfl
  | false =>
    have hbegins : s.pc t ≠ .waitFirst → s.handlerBegins t = [] := by
      intro hne
      unfold Process.handlerBegins
      cases hpc : s.pc t <;> first | rfl | exact absurd hpc hne
    generalize s.handlerNext t answer = s' at hstep haborted hcaller
    cases hstep with
    | start hpc =>
      have hone : s.handlerBegins t = [some t] := by
        simp [Process.handlerBegins, hpc, hgo]
      rw [hone]
      refine hmove rfl rfl rfl hgo ?_ fun y hy => ?_
      · rw [hpc, List.count_singleton_self]
        rfl
      · exact List.count_eq_zero.mpr fun hmem => hy (List.mem_singleton.mp hmem)
    | skip _ _ hskip =>
      rw [hgo] at hskip
      cases hskip
    | @body body body' s' hpc _ hbody =>
      rw [hbegins (by rw [hpc]; nofun)]
      have hnext : (s'.goto t (.callback body')).pc = Function.update s.pc t (.callback body') := by
        rw [← (doSetxid_same hbody).pc]
        rfl
      exact hmove haborted hcaller hnext hgo (by rw [hpc]; rfl) fun _ _ => rfl
    | @leave body s' hpc hbody =>
      rw [hbegins (by rw [hpc]; nofun)]
      have hnext : (s'.goto t .postRan).pc = Function.update s.pc t .postRan := by
        rw [← (doSetxid_same hbody).pc]
        rfl
      exact hmove haborted hcaller hnext hgo (by rw [hpc]; rfl) fun _ _ => rfl
    | caught hpc | ran hpc | released hpc | gone hpc =>
      rw [hbegins (by rw [hpc]; nofun)]
      exact hmove rfl rfl rfl hgo (by rw [hpc]; rfl) fun _ _ => rfl

omit [DecidableEq τ] in
/-- Where the call is aborted, no callback has begun. -/
theorem begun_abort (h : Balanced s) (hpc : s.caller = .signal) (x : Option τ) : s.begun x = 0 := by
  have hposts := h.targetSem
  rw [hpc] at hposts
  have htakes : tally HandlerPc.takes s.pc = 0 := (Nat.add_eq_zero_iff.mp hposts).2
  unfold Process.begun
  cases x with
  | none => simp [hpc, CallerPc.begun]
  | some t =>
    have htake : (s.pc t).takes = 0 := tally_eq_zero_iff.mp htakes t
    have hbegun : (s.pc t).begun = 0 := by
      cases hpc : s.pc t <;> rw [hpc] at htake <;> first | rfl | cases htake
    simp [hbegun]

theorem begun_caller (h : Invariant s) (he : s.Enabled (.caller answer)) (x : Option τ) :
    (s.next answer).begun x = s.begun x + s.nextBegins.count x := by
  have hstep := callerStep he
  have hnone : (∀ i, s.caller ≠ .post i) → s.nextBegins = [] := by
    intro hne
    unfold Process.nextBegins
    cases hpc : s.caller with
    | post i => exact absurd hpc (hne i)
    | _ => rfl
  have hmove : ∀ {s' : Process τ}, s'.pc = s.pc → s'.aborted = s.aborted →
      s'.caller.begun = s.caller.begun → s.nextBegins = [] →
      s'.begun x = s.begun x + s.nextBegins.count x := by
    intro s' hpc haborted hbegun hnone
    rw [hnone]
    cases x with
    | none => simp [Process.begun, haborted, hbegun]
    | some t => simp [Process.begun, haborted, hpc]
  generalize s.next answer = s' at hstep
  cases hstep with
  | @signal td hpc htd =>
    rw [hnone (by rw [hpc]; nofun)]
    cases x with
    | none => simp [Process.begun, hpc, CallerPc.begun]
    | some t =>
      have hbegun : (Function.update s.pc td .signalled t).begun = (s.pc t).begun := by
        by_cases heq : t = td
        · rw [heq, Function.update_self, (h.balanced.next_running h.nodup hpc htd).1]
          rfl
        · rw [Function.update_of_ne heq]
      simp [Process.begun, hbegun]
  | abort hpc =>
    rw [begun_aborted rfl, begun_abort h.balanced hpc, hnone (by rw [hpc]; nofun)]
    rfl
  | again hpc => exact hmove rfl rfl rfl (hnone (by rw [hpc]; nofun))
  | caughtAll hpc | caught hpc | ran hpc | release hpc | releasedAll hpc | gone hpc
  | returned hpc =>
    exact hmove rfl rfl (by rw [hpc]; rfl) (hnone (by rw [hpc]; nofun))
  | post hpc hi =>
    refine hmove rfl rfl (by rw [hpc]; rfl) ?_
    simp [Process.nextBegins, hpc, hi]
  | start hpc hi hgo =>
    have hone : s.nextBegins = [none] := by simp [Process.nextBegins, hpc, hi, hgo]
    rw [hone]
    cases x with
    | none => simp [Process.begun, hgo, hpc, CallerPc.begun]
    | some t => simp [Process.begun, hgo]
  | skip hpc hi haborted =>
    have hnone : s.nextBegins = [] := by simp [Process.nextBegins, hpc, haborted]
    have hafter : ({ s with caller := .release 0 } : Process τ).begun x = 0 := by
      apply begun_aborted
      exact haborted
    rw [hafter, begun_aborted haborted, hnone]
    rfl
  | body hpc _ hbody | leave hpc hbody =>
    have hsame := doSetxid_same hbody
    exact hmove hsame.pc hsame.aborted (by rw [hpc]; rfl) (hnone (by rw [hpc]; nofun))

/-- The callbacks that have begun in a run are those of the threads that are beyond that place. -/
theorem begun_run (h₀ : synccall.init s₀) (hr : synccall.Run s₀ es s) (x : Option τ) :
    (synccall.emitted Process.begins s₀ es).count x = s.begun x := by
  have hstep : ∀ (s : Process τ) e xs, (Invariant s ∧ ∀ x, xs.count x = s.begun x) →
      synccall.enabled s e → Invariant (synccall.step s e) ∧
        ∀ x, (xs ++ s.begins e).count x = (synccall.step s e).begun x := by
    rintro s e xs ⟨h, hcount⟩ he
    refine ⟨invariant_step h he, fun x => ?_⟩
    rw [List.count_append, hcount]
    cases e with
    | caller answer => exact (begun_caller h he x).symm
    | handler t answer => exact (begun_handler h.balanced he x).symm
  have hzero : ∀ x, ([] : List (Option τ)).count x = s₀.begun x := by
    intro x
    obtain ⟨hs₀, -⟩ := h₀
    rw [hs₀]
    cases x <;> rfl
  exact (hr.invariant_emitted hstep ⟨invariant_initial h₀, hzero⟩).2 x

/-! ## The end of the call -/

theorem returned_settled (h : Invariant s) (hpc : s.caller = .returned) :
    s.callerSem = 0 ∧ s.targetSem = 0 ∧
      ∀ t, s.pc t = .returned ∨ s.aborted = true ∧ s.pc t = .running := by
  have htokens := h.balanced.tokens
  have hposts := h.balanced.targetSem
  have hcaught := h.balanced.caught_eq (by rw [hpc]; nofun)
  have hawaited := h.balanced.awaited (by rw [hpc]; nofun)
  have hdue : tally HandlerPc.takes s.pc + tally HandlerPc.due s.pc =
      tally HandlerPc.caught s.pc + tally HandlerPc.caught s.pc :=
    tally_add_congr HandlerPc.takes_add_due
  rw [hpc] at htokens hposts
  simp only [CallerPc.posts, CallerPc.takes] at htokens hposts
  have hdue : tally HandlerPc.due s.pc = 0 := by omega
  have hactive : tally HandlerPc.active s.pc = 0 := by omega
  refine ⟨by omega, by omega, fun t => ?_⟩
  have hdue := tally_eq_zero_iff.mp hdue t
  have hactive := tally_eq_zero_iff.mp hactive t
  have hawaited := tally_eq_zero_iff.mp hawaited t
  cases ht : s.pc t with
  | returned => exact Or.inl rfl
  | running =>
    refine Or.inr ⟨?_, rfl⟩
    rcases h.complete with haborted | hsignal | hwait | hall
    · exact haborted
    · rw [hpc] at hsignal
      cases hsignal
    · rw [hpc] at hwait
      cases hwait
    · -- all threads have been caught, and this one would be one more
      have hcard : Fintype.card τ ≤ s.threads.length := by
        rw [← List.toFinset_card_of_nodup h.nodup]
        exact Finset.card_le_card fun u _ => List.mem_toFinset.mpr (h.mem_threads u)
      have hle : Fintype.card τ ≤ tally HandlerPc.caught s.pc := by omega
      have hone := eq_one_of_card_le_tally
        (fun pc => by cases pc <;> simp [HandlerPc.caught]) hle t
      rw [ht] at hone
      cases hone
  | signalled =>
    rw [ht] at hawaited
    cases hawaited
  | postGone =>
    rw [ht] at hactive
    cases hactive
  | _ =>
    rw [ht] at hdue
    cases hdue

/-- The call comes to its end: there are at most so many steps, besides those in which `tkill` is to
be called again, and only the end or a kill stops it.
One thread at a time makes the callback until the caller releases them. At the end both semaphores
are down, no thread is in the handler and each has made the callback once, or none has. -/
theorem synccall_completes (h₀ : synccall.init s₀) (hr : synccall.Run s₀ es s) :
    es.length ≤ 16 * Fintype.card τ + 9 + (synccall.emitted Process.refused s₀ es).length ∧
      ((∀ e, ¬ synccall.enabled s e) → s.caller = .returned ∨ s.killed = true) ∧
      (s.caller.holds = true → ∀ x y, s.InCallback x → s.InCallback y → x = y) ∧
      (s.caller = .returned → s.callerSem = 0 ∧ s.targetSem = 0 ∧
        (∀ t, s.pc t = .returned ∨ s.aborted = true ∧ s.pc t = .running) ∧
        ∀ x, (synccall.emitted Process.begins s₀ es).count x = if s.aborted then 0 else 1) := by
  have h := invariant_run h₀ hr
  refine ⟨run_length_le h₀ hr, fun hstuck => ?_, fun hholds x y => serial h.balanced hholds,
    fun hpc => ?_⟩
  · by_contra hnot
    rw [not_or, Bool.not_eq_true] at hnot
    obtain ⟨e, he⟩ := exists_enabled h.balanced hnot.2 hnot.1
    exact hstuck e he
  · obtain ⟨hcaller, htarget, hthreads⟩ := returned_settled h hpc
    refine ⟨hcaller, htarget, hthreads, fun x => ?_⟩
    rw [begun_run h₀ hr]
    cases hgo : s.aborted with
    | true => rw [begun_aborted hgo, if_pos rfl]
    | false =>
      cases x with
      | none => simp [Process.begun, hgo, hpc, CallerPc.begun]
      | some t =>
        rcases hthreads t with ht | ⟨haborted, -⟩
        · simp [Process.begun, hgo, ht, HandlerPc.begun]
        · rw [hgo] at haborted
          cases haborted

/-- The first of two threads gets the signal at the second attempt, and takes the token that is meant
for the second one: it leaves the handler before the second one and the caller have made the
callback. -/
def overtaken : List (Act Bool) :=
  [.caller eagain, .caller 0, .handler false 0, .caller 0, .caller 0, .handler true 0, .caller 0,
    .caller 0, .caller 0, .handler false 0, .handler false 0, .handler false 0, .handler false 0,
    .handler false 0, .handler false 0, .caller 0, .caller 0, .handler false 0, .handler false 0,
    .caller 0, .caller 0]

/-- The caller makes the callback and releases the threads, and the second one catches up. -/
def caughtUp : List (Act Bool) :=
  [.caller 0, .caller 0, .caller 0, .caller 0, .caller 0, .caller 0, .caller 0, .handler true 0,
    .handler true 0, .handler true 0, .handler true 0, .handler true 0, .handler true 0,
    .handler true 0, .handler true 0, .caller 0, .caller 0, .caller 0]

def twoThreads : Process Bool where
  threads := [false, true]

theorem synccall_completes_overtaken :
    let es := overtaken ++ caughtUp
    let s := es.foldl Process.step twoThreads
    es.length ≤ 16 * Fintype.card Bool + 9 +
        (synccall.emitted Process.refused twoThreads es).length ∧
      ((∀ e, ¬ synccall.enabled s e) → s.caller = .returned ∨ s.killed = true) ∧
      (s.caller.holds = true → ∀ x y, s.InCallback x → s.InCallback y → x = y) ∧
      (s.caller = .returned → s.callerSem = 0 ∧ s.targetSem = 0 ∧
        (∀ t, s.pc t = .returned ∨ s.aborted = true ∧ s.pc t = .running) ∧
        ∀ x, (synccall.emitted Process.begins twoThreads es).count x =
          if s.aborted then 0 else 1) :=
  synccall_completes ⟨rfl, by decide, by decide⟩ (System.Run.of_enabledAll (by decide))

end Runs

example :
    let s := overtaken.foldl Process.step twoThreads
    s.caller = .func .read ∧ s.pc false = .returned ∧ s.pc true = .waitFirst := by decide

example : ((overtaken ++ caughtUp).foldl Process.step twoThreads).caller = .returned := by decide

end Musl.Synccall
