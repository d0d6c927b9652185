import OpenHarmonyMac.Appspawn.Reservation

/-!
# The children of the server

Which child belongs to which request. Starting the child of a request gives the request one child
of its own and leaves the children of all other requests alone.
-/

namespace Appspawn

variable {k : Codes} {env : SpawnEnv} {content : AppSpawnContent} {procs procs' procs'' : List Proc}
  {n : NodeId} {p : Proc}

/-- The kernel tells running children apart by their pids, the server by their requests. -/
structure Children (procs : List Proc) : Prop where
  positive : ∀ p ∈ procs, 0 < p.pid
  distinct : ∀ p ∈ procs, ∀ q ∈ procs, p.reaped = false → q.reaped = false → p.pid = q.pid → p = q
  handed : ∀ p ∈ procs, ∀ q ∈ procs, ∀ m, m ∈ p.handedTo → m ∈ q.handedTo → p = q

/-- No child belongs to the request `n`. -/
def Unhanded (procs : List Proc) (n : NodeId) : Prop := ∀ p ∈ procs, n ∉ p.handedTo

theorem Children.append (h : Children procs) (hpos : 0 < p.pid) (hfresh : ¬ Running procs p.pid)
    (hn : ∀ m ∈ p.handedTo, Unhanded procs m) : Children (procs ++ [p]) where
  positive q hq := by
    rcases List.mem_append.mp hq with hq | hq
    · exact h.positive q hq
    · rw [List.mem_singleton.mp hq]
      exact hpos
  distinct q hq q' hq' hr hr' he := by
    rcases List.mem_append.mp hq with hq | hq <;> rcases List.mem_append.mp hq' with hq' | hq'
    · exact h.distinct q hq q' hq' hr hr' he
    · rw [List.mem_singleton.mp hq'] at he
      exact absurd ⟨q, hq, he, hr⟩ hfresh
    · rw [List.mem_singleton.mp hq] at he
      exact absurd ⟨q', hq', he.symm, hr'⟩ hfresh
    · rw [List.mem_singleton.mp hq, List.mem_singleton.mp hq']
  handed q hq q' hq' m hm hm' := by
    rcases List.mem_append.mp hq with hq | hq <;> rcases List.mem_append.mp hq' with hq' | hq'
    · exact h.handed q hq q' hq' m hm hm'
    · rw [List.mem_singleton.mp hq'] at hm'
      exact absurd hm (hn m hm' q hq)
    · rw [List.mem_singleton.mp hq] at hm
      exact absurd hm' (hn m hm q' hq')
    · rw [List.mem_singleton.mp hq, List.mem_singleton.mp hq']

/-- A change of the running child under `pid` that at most gives it to `n`. -/
theorem Children.update (h : Children procs) (f : Proc → Proc) (pid : Int)
    (hpid : ∀ p, (f p).pid = p.pid) (hreaped : ∀ p, (f p).reaped = true ∨ (f p).reaped = p.reaped)
    (hf : ∀ p, (f p).handedTo = p.handedTo ∨ (f p).handedTo = n :: p.handedTo)
    (hn : Unhanded procs n) : Children (updateProc f pid procs) := by
  have hrun : ∀ p : Proc, (f p).reaped = false → p.reaped = false := by
    intro p hr
    rcases hreaped p with ht | he
    · rw [ht] at hr
      cases hr
    · exact he ▸ hr
  have hmem : ∀ p : Proc, ∀ m, m ∈ (f p).handedTo → m = n ∨ m ∈ p.handedTo := by
    intro p m hm
    rcases hf p with he | he
    · exact Or.inr (he ▸ hm)
    · rw [he] at hm
      exact List.mem_cons.mp hm
  constructor
  · intro p hp
    obtain ⟨q, hq, ⟨-, -, rfl⟩ | ⟨-, rfl⟩⟩ := mem_updateProc hp
    · rw [hpid]
      exact h.positive q hq
    · exact h.positive p hq
  · intro p hp p' hp' hr hr' he
    obtain ⟨q, hq, ⟨h₁, h₂, rfl⟩ | ⟨h₁, rfl⟩⟩ := mem_updateProc hp <;>
      obtain ⟨q', hq', ⟨h₁', h₂', rfl⟩ | ⟨h₁', rfl⟩⟩ := mem_updateProc hp'
    · rw [h.distinct q hq q' hq' h₂ h₂' (h₁.trans h₁'.symm)]
    · rw [hpid] at he
      exact absurd ⟨he ▸ h₁, hr'⟩ h₁'
    · rw [hpid] at he
      exact absurd ⟨he ▸ h₁', hr⟩ h₁
    · exact h.distinct p hq p' hq' hr hr' he
  · intro p hp p' hp' m hm hm'
    obtain ⟨q, hq, ⟨h₁, h₂, rfl⟩ | ⟨h₁, rfl⟩⟩ := mem_updateProc hp <;>
      obtain ⟨q', hq', ⟨h₁', h₂', rfl⟩ | ⟨h₁', rfl⟩⟩ := mem_updateProc hp'
    · rw [h.distinct q hq q' hq' h₂ h₂' (h₁.trans h₁'.symm)]
    · rcases hmem q m hm with rfl | hm
      · exact absurd hm' (hn p' hq')
      · exact absurd ⟨(h.handed q hq p' hq' m hm hm') ▸ h₁, (h.handed q hq p' hq' m hm hm') ▸ h₂⟩ h₁'
    · rcases hmem q' m hm' with rfl | hm'
      · exact absurd hm (hn p hq)
      · exact absurd ⟨(h.handed p hq q' hq' m hm hm') ▸ h₁', (h.handed p hq q' hq' m hm hm') ▸ h₂'⟩ h₁
    · exact h.handed p hq p' hq' m hm hm'

/-! ## A child is reaped -/

/-- The other children stay as they are. -/
theorem Children.mem_reap_of_ne (h : Children procs) (hp : p ∈ procs) (hrun : p.reaped = false)
    {q : Proc} (hq : q ∈ procs) (hne : q ≠ p) :
    q ∈ updateProc Proc.markReaped p.pid procs := by
  refine List.mem_map.mpr ⟨q, hq, if_neg (fun hc => hne ?_)⟩
  exact h.distinct q hq p hp hc.2 hrun hc.1

theorem markReaped_mem_reap (hp : p ∈ procs) (hrun : p.reaped = false) :
    p.markReaped ∈ updateProc Proc.markReaped p.pid procs :=
  List.mem_map.mpr ⟨p, hp, if_pos ⟨rfl, hrun⟩⟩

/-- Reaping hands nothing out. -/
theorem handedTo_of_mem_reap {pid : Int} {q : Proc}
    (hq : q ∈ updateProc Proc.markReaped pid procs) : ∃ p ∈ procs, q.handedTo = p.handedTo := by
  obtain ⟨p, hp, ⟨-, -, rfl⟩ | ⟨-, rfl⟩⟩ := mem_updateProc hq
  · exact ⟨p, hp, rfl⟩
  · exact ⟨q, hp, rfl⟩

/-! ## A child is forked -/

/-- From `procs` to `procs'` children are forked, and the reserved one may be given to `n`. -/
structure Extends (n : NodeId) (procs procs' : List Proc) : Prop where
  keeps : ∀ p ∈ procs, p.handedTo ≠ [] ∨ p.prefork = none → p ∈ procs'
  handed : ∀ p ∈ procs', ∀ m ∈ p.handedTo, m ≠ n → p ∈ procs

theorem Extends.refl (n : NodeId) (procs : List Proc) : Extends n procs procs :=
  ⟨fun _ hp _ => hp, fun _ hp _ _ _ => hp⟩

theorem Extends.append (h : Extends n procs procs') (hp : ∀ m ∈ p.handedTo, m = n) :
    Extends n procs (procs' ++ [p]) where
  keeps q hq hk := List.mem_append_left _ (h.keeps q hq hk)
  handed q hq m hm hne := by
    rcases List.mem_append.mp hq with hq | hq
    · exact h.handed q hq m hm hne
    · rw [List.mem_singleton.mp hq] at hm
      exact absurd (hp m hm) hne

/-- A change of the child in reserve. -/
theorem Extends.update {f : Proc → Proc} {pid : Int}
    (hin : ∀ p ∈ procs, p.pid = pid → p.reaped = false → InReserve content p)
    (hf : ∀ p, p.handedTo = [] → ∀ m ∈ (f p).handedTo, m = n) :
    Extends n procs (updateProc f pid procs) where
  keeps p hp hk := by
    refine List.mem_map.mpr ⟨p, hp, if_neg (fun hc => ?_)⟩
    have hr := hin p hp hc.1 hc.2
    rcases hk with hk | hk
    · exact hk hr.handedTo
    · obtain ⟨a, b, hpipes, -⟩ := hr.pipes
      rw [hk] at hpipes
      cases hpipes
  handed p hp m hm hne := by
    obtain ⟨q, hq, ⟨h₁, h₂, rfl⟩ | ⟨-, rfl⟩⟩ := mem_updateProc hp
    · exact absurd (hf q (hin q hq h₁ h₂).handedTo m hm) hne
    · exact hq

/-- What starting the child of `n` makes of the children. -/
structure StartsOne (n : NodeId) (procs : List Proc) (r : Started) : Prop where
  children : Children r.procs
  extend : Extends n procs r.procs
  /-- A child that was started runs, and belongs to `n`. -/
  child : r.ret = 0 → 0 < r.childPid →
    ∃ p ∈ r.procs, p.pid = r.childPid ∧ p.reaped = false ∧ n ∈ p.handedTo

theorem preFork_procs (env : SpawnEnv) (base : Nat) (r : Started) :
    (r.preFork env base).procs = r.procs ∨ ∃ pid ∈ env.preforkFork,
      (r.preFork env base).procs = r.procs ++ [{ pid, prefork := some (base, base + 1) }] := by
  simp only [Started.preFork, processPreFork]
  split
  · exact Or.inl rfl
  · split
    · exact Or.inl rfl
    · split
      · exact Or.inl rfl
      · next pid hpid => exact Or.inr ⟨pid, hpid, rfl⟩

theorem startsOne_preFork {r : Started} {base : Nat} (h : StartsOne n procs r)
    (hfresh : ∀ pid ∈ env.preforkFork, 0 < pid ∧ ¬ Running r.procs pid) :
    StartsOne n procs (r.preFork env base) := by
  rcases preFork_procs env base r with he | ⟨pid, hpid, he⟩
  · refine ⟨by rw [he]; exact h.children, by rw [he]; exact h.extend, fun hr hp => ?_⟩
    rw [he]
    exact h.child hr hp
  · obtain ⟨hpos, hnew⟩ := hfresh pid hpid
    refine ⟨?_, ?_, fun hr hp => ?_⟩
    · rw [he]
      exact h.children.append hpos hnew (fun m hm => absurd hm List.not_mem_nil)
    · rw [he]
      exact h.extend.append (fun m hm => absurd hm List.not_mem_nil)
    · obtain ⟨p, hm, hc⟩ := h.child hr hp
      rw [he]
      exact ⟨p, List.mem_append_left _ hm, hc⟩

theorem startsOne_unchanged (h : Children procs) {r : Started} (hp : r.procs = procs)
    (hr : r.ret ≠ 0 ∨ r.childPid = 0) : StartsOne n procs r where
  children := by
    rw [hp]
    exact h
  extend := by
    rw [hp]
    exact Extends.refl n procs
  child h₀ hpos := by
    rcases hr with hr | hr
    · exact absurd h₀ hr
    · rw [hr] at hpos
      exact absurd hpos (Int.lt_irrefl 0)

theorem startsOne_forkChild (h : Children procs) (hn : Unhanded procs n)
    (hfresh : ∀ pid ∈ env.fork, 0 < pid ∧ ¬ Running procs pid) (k : Codes) (base : Nat)
    (content : AppSpawnContent) (msg : AppSpawnMsg) :
    StartsOne n procs (forkChild k env base content msg n procs) := by
  unfold forkChild
  split
  · next errno _ => exact startsOne_unchanged h rfl (Or.inl errno.2)
  · unfold appSpawnProcessMsg
    split
    · exact startsOne_unchanged h rfl (Or.inr rfl)
    · split
      · exact startsOne_unchanged h rfl (Or.inr rfl)
      · next pid hpid =>
        obtain ⟨hpos, hnew⟩ := hfresh pid hpid
        refine ⟨?_, ?_, fun _ _ => ?_⟩
        · exact h.append hpos hnew (fun m hm => (List.mem_singleton.mp hm) ▸ hn)
        · exact (Extends.refl n procs).append (fun m hm => List.mem_singleton.mp hm)
        · exact ⟨_, List.mem_append_right _ List.mem_cons_self, rfl, rfl, List.mem_cons_self⟩

theorem startsOne_handOver (h : Children procs) (hn : Unhanded procs n)
    (hr : Reserved content procs) (hpos : 0 < content.reservedPid) (env : SpawnEnv) :
    StartsOne n procs (handOver env content n procs) := by
  obtain ⟨p, hp, hpid, hrun⟩ := hr.running hpos
  unfold handOver
  split
  · refine ⟨?_, ?_, fun _ _ => ?_⟩
    · exact h.update (Proc.markHanded n) content.reservedPid (fun _ => rfl)
        (fun _ => Or.inr rfl) (fun _ => Or.inr rfl) hn
    · refine Extends.update (hr.inReserve hpos) (fun p hnil m hm => ?_)
      rw [Proc.markHanded, hnil] at hm
      exact List.mem_singleton.mp hm
    · refine ⟨_, List.mem_map_of_mem hp, ?_⟩
      rw [if_pos ⟨hpid, hrun⟩]
      exact ⟨hpid, hrun, List.mem_cons_self⟩
  · refine ⟨?_, ?_, fun h₀ _ => absurd h₀ (show ¬ (-1 : Int) = 0 from by decide)⟩
    · exact h.update Proc.markKilled content.reservedPid (fun _ => rfl)
        (fun _ => Or.inr rfl) (fun _ => Or.inl rfl) hn
    · refine Extends.update (hr.inReserve hpos) (fun p hnil m hm => ?_)
      rw [Proc.markKilled, hnil] at hm
      exact absurd hm List.not_mem_nil

/-- **A request gets at most one child, its own.** -/
theorem startsOne_runAppSpawnProcessMsg {client : AppSpawnClient} {msg : AppSpawnMsg} {base : Nat}
    (h : Children procs) (hn : Unhanded procs n) (hr : Reserved content procs)
    (hfork : ∀ pid ∈ env.fork, 0 < pid ∧ ¬ Running procs pid)
    (hprefork : ∀ pid ∈ env.preforkFork, 0 < pid ∧ ¬ Running procs pid)
    (hdistinct : ∀ pid ∈ env.fork, env.preforkFork ≠ some pid) :
    StartsOne n procs (runAppSpawnProcessMsg k env base content client msg n procs) := by
  have hplain := startsOne_forkChild h hn hfork k base content msg
  unfold runAppSpawnProcessMsg
  split
  · unfold appSpawnProcessMsgForPrefork
    split
    · split
      · next errno _ => exact startsOne_unchanged h rfl (Or.inl errno.2)
      · refine startsOne_preFork hplain (fun pid hpid => ⟨(hprefork pid hpid).1, fun hrun => ?_⟩)
        rcases forkChild_procs k env base content msg n procs with he | ⟨q, hq, he⟩
        · rw [he] at hrun
          exact (hprefork pid hpid).2 hrun
        · rw [he, running_append] at hrun
          rcases hrun with hrun | ⟨rfl, -⟩
          · exact (hprefork pid hpid).2 hrun
          · exact hdistinct _ hq hpid
    · next hpos =>
      split
      · exact startsOne_unchanged h rfl (Or.inr rfl)
      · split
        · exact startsOne_unchanged h rfl (Or.inr rfl)
        · refine startsOne_preFork
            (startsOne_handOver h hn (hr.mapped true) (Int.not_le.mp hpos) env)
            (fun pid hpid => ⟨(hprefork pid hpid).1, fun hrun => ?_⟩)
          exact (hprefork pid hpid).2 ((running_handOver env _ n procs).mp hrun)
  · exact hplain

end Appspawn
