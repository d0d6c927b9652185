import OpenHarmonyMac.Ldso.Constructors

/-!
# Destructors at the exit of the program

* `Exits` — how far a call of `__libc_exit_fini` is
* `initFini_destructors` — which destructors a run has run, and in which order
-/

namespace Ldso

open Infra

variable {τ δ : Type} [DecidableEq τ] [DecidableEq δ]

variable {hasFini : δ → Bool} {s s' : Linker τ δ} {log : List (Ran δ)} {es : List (Act τ δ)} {t : τ}

/-- What a call of `__libc_exit_fini` still has to go through, once it has the lock. -/
def ExitPc.rest? : ExitPc δ → Option (List δ)
  | .lock => none
  | .scan rest | .wait rest => some rest
  | .returned => some []

/-- The exiting thread has gone through the list up to `rest`: the destructors of all that is
constructed have run, and the thread itself is at the constructors of all that is not. -/
def Gone (s : Linker τ δ) (log : List (Ran δ)) (t : τ) (rest : List δ) : Prop :=
  s.shuttingDown = true ∧ ∃ done, s.finiHead = done ++ rest ∧
    dtorsOf log = done.filter s.constructed ∧
    ∀ d ∈ done, s.constructed d = true ∨ s.visitor d = some t

/-- How far the program is in its exit. -/
structure Exits (s : Linker τ δ) (log : List (Ran δ)) : Prop where
  before : s.exitCalled = false → s.shuttingDown = false ∧ ∀ t, s.exiting t = none
  alone : ∀ t u, s.exiting t ≠ none → s.exiting u ≠ none → t = u
  called : ∀ t, s.exiting t ≠ none → s.exitCalled = true
  idle : s.shuttingDown = false → dtorsOf log = []
  going : ∀ t pc rest, s.exiting t = some pc → pc.rest? = some rest → Gone s log t rest
  running : s.shuttingDown = true → ∃ t pc rest, s.exiting t = some pc ∧ pc.rest? = some rest

omit [DecidableEq τ] [DecidableEq δ] in
/-- The exit does not depend on the calls of `do_init_fini`. -/
theorem Exits.congr {log' : List (Ran δ)} (h : Exits s log) (hcalled : s'.exitCalled = s.exitCalled)
    (hdown : s'.shuttingDown = s.shuttingDown) (hexiting : s'.exiting = s.exiting)
    (hlog : dtorsOf log' = dtorsOf log)
    (hgone : ∀ t rest, s.exiting t ≠ none → Gone s log t rest → Gone s' log t rest) :
    Exits s' log' := by
  refine ⟨?_, hexiting ▸ h.alone, ?_, ?_, ?_, ?_⟩
  · rw [hcalled, hdown, hexiting]
    exact h.before
  · rw [hcalled, hexiting]
    exact h.called
  · rw [hdown, hlog]
    exact h.idle
  · intro t pc rest hpc hrest
    rw [hexiting] at hpc
    have := hgone t rest (by simp [hpc]) (h.going t pc rest hpc hrest)
    rwa [Gone, hlog]
  · rw [hdown, hexiting]
    exact h.running

omit [DecidableEq τ] [DecidableEq δ] in
theorem exits_initial : Exits (Linker.initial : Linker τ δ) [] where
  before _ := ⟨rfl, fun _ => rfl⟩
  alone _ _ h := absurd rfl h
  called _ h := absurd rfl h
  idle _ := rfl
  going _ _ _ h := nomatch h
  running h := nomatch h

omit [DecidableEq δ] in
/-- The thread that exits goes on to `pc`, under the lock or without it. -/
theorem Exits.goto {log' : List (Ran δ)} {pc : ExitPc δ} {rest : List δ} (h : Exits s log)
    (ht : s.exiting t ≠ none) (hrest : pc.rest? = some rest)
    (hcalled : s'.exitCalled = s.exitCalled)
    (hexiting : s'.exiting = Function.update s.exiting t (some pc)) (hgone : Gone s' log' t rest) :
    Exits s' log' := by
  have hself : s'.exiting t = some pc := by rw [hexiting, Function.update_self]
  have honly : ∀ u, s'.exiting u ≠ none → u = t := by
    intro u hu
    by_contra hne
    rw [hexiting, Function.update_of_ne hne] at hu
    exact hne (h.alone u t hu ht)
  refine ⟨fun hc => ?_, fun u v hu hv => ?_, fun _ _ => hcalled.trans (h.called t ht), fun hd => ?_,
    fun u pc' rest' hpc hrest' => ?_, fun _ => ⟨t, pc, rest, hself, hrest⟩⟩
  · rw [hcalled, h.called t ht] at hc
    cases hc
  · rw [honly u hu, honly v hv]
  · rw [hgone.1] at hd
    cases hd
  · cases honly u (by simp [hpc])
    rw [hself] at hpc
    cases hpc
    rw [hrest] at hrest'
    cases hrest'
    exact hgone

omit [DecidableEq δ] in
/-- Nothing new starts to be constructed while the program exits. -/
theorem runs_of_shuttingDown (h : s.shuttingDown = true) (t : τ) : ctorsOf (s.runs t) = [] := by
  unfold Linker.runs
  cases s.exiting t with
  | some pc =>
    cases pc with
    | scan rest =>
      cases rest with
      | nil => rfl
      | cons p rest =>
        simp only
        split <;> rfl
    | lock => rfl
    | wait rest => rfl
    | returned => rfl
  | none =>
    cases s.frames t with
    | nil => rfl
    | cons f fs =>
      cases f with
      | mk queue i pc =>
        cases pc <;> cases hp : queue[i]? <;> simp [Linker.mustWait, h, ctorsOf, hp]

omit [DecidableEq δ] in
/-- Only the thread that exits runs destructors. -/
theorem dtorsOf_runs (hexit : s.exiting t = none) : dtorsOf (log ++ s.runs t) = dtorsOf log := by
  unfold Linker.runs
  rw [hexit]
  cases s.frames t with
  | nil => simp
  | cons f fs =>
    simp only
    split
    · split <;> simp [dtorsOf]
    · simp

/-- A step of `do_init_fini` leaves what the exit has gone through as it is. -/
theorem gone_next {u : τ} {rest : List δ} (hv : s.Visited hasFini log) (hexit : s.exiting t = none)
    (hu : s.exiting u ≠ none) (hgone : Gone s log u rest) :
    Gone (s.next hasFini t) log u rest := by
  unfold Linker.next
  rw [hexit]
  cases hf : s.frames t with
  | nil => exact hgone
  | cons f fs =>
    simp only
    split
    · exact hgone
    · exact hgone
    · unfold Linker.scan
      split
      · exact hgone
      · next p hp =>
        rw [if_pos (by simp [Linker.mustWait, hgone.1])]
        exact hgone
    · exact hgone
    · next hpc =>
      unfold Linker.finish
      split
      · exact hgone
      · next p hp =>
        obtain ⟨hdown, done, hdone, hlog, hall⟩ := hgone
        have hvp : s.visitor p = some t := by
          refine (hv.visitor_iff p t).mpr ?_
          rw [hf, underway, List.filterMap_cons]
          simp only [busy, hpc, hp, List.mem_cons_self]
        have hnot : p ∉ done := by
          intro hmem
          rcases hall p hmem with hc | hvu
          · rw [hv.fresh p t hvp] at hc
            cases hc
          · rw [hvp] at hvu
            cases hvu
            exact hu hexit
        have hne : ∀ d ∈ done, d ≠ p := fun d hd hdp => hnot (hdp ▸ hd)
        refine ⟨hdown, done, hdone, ?_, fun d hd => ?_⟩
        · rw [hlog]
          refine List.filter_congr fun d hd => ?_
          exact (Function.update_of_ne (hne d hd) ..).symm
        · have := hall d hd
          rwa [← Function.update_of_ne (hne d hd) true s.constructed,
            ← Function.update_of_ne (hne d hd) none s.visitor] at this

/-- A step of `do_init_fini` is no step of the exit. -/
theorem exit_next (hasFini : δ → Bool) (hexit : s.exiting t = none) :
    (s.next hasFini t).exitCalled = s.exitCalled ∧
      (s.next hasFini t).shuttingDown = s.shuttingDown ∧
      (s.next hasFini t).exiting = s.exiting := by
  unfold Linker.next
  rw [hexit]
  cases s.frames t with
  | nil => exact ⟨rfl, rfl, rfl⟩
  | cons f fs =>
    simp only
    split
    · exact ⟨rfl, rfl, rfl⟩
    · exact ⟨rfl, rfl, rfl⟩
    · unfold Linker.scan
      split
      · exact ⟨rfl, rfl, rfl⟩
      · split
        · exact ⟨rfl, rfl, rfl⟩
        · split <;> exact ⟨rfl, rfl, rfl⟩
    · exact ⟨rfl, rfl, rfl⟩
    · unfold Linker.finish
      split <;> exact ⟨rfl, rfl, rfl⟩

theorem exits_next (h : Exits s log) (hv : s.Visited hasFini log) (hready : s.ready t) :
    Exits (s.next hasFini t) (log ++ s.runs t) := by
  cases hexit : s.exiting t with
  | some pc =>
    have ht : s.exiting t ≠ none := by simp [hexit]
    have hgoing := fun rest => h.going t pc rest hexit
    unfold Linker.next
    rw [hexit]
    cases pc with
    | lock =>
      have hruns : log ++ s.runs t = log := by simp [Linker.runs, hexit]
      rw [hruns]
      refine h.goto ht rfl rfl rfl ⟨rfl, [], rfl, ?_, fun d hd => by simp at hd⟩
      by_cases hdown : s.shuttingDown = true
      · obtain ⟨u, pc, rest, hu, hrest⟩ := h.running hdown
        cases h.alone u t (by simp [hu]) ht
        rw [hexit] at hu
        cases hu
        cases hrest
      · exact h.idle (by simpa using hdown)
    | scan rest =>
      obtain ⟨hdown, done, hdone, hlog, hall⟩ := hgoing rest rfl
      cases rest with
      | nil =>
        have hruns : log ++ s.runs t = log := by simp [Linker.runs, hexit]
        rw [hruns]
        exact h.goto ht rfl rfl rfl ⟨hdown, done, hdone, hlog, hall⟩
      | cons p rest =>
        by_cases hother : ((s.visitor p).isSome && s.visitor p != some t) = true
        · have hruns : log ++ s.runs t = log := by
            simp only [Linker.runs, hexit, hother, Bool.not_true, Bool.false_and,
              Bool.false_eq_true, if_false, List.append_nil]
          rw [hruns]
          simp only [Linker.exitScan, if_pos hother]
          exact h.goto ht rfl rfl rfl ⟨hdown, done, hdone, hlog, hall⟩
        · have hruns : s.runs t = if s.constructed p then [.dtors p] else [] := by
            simp only [Linker.runs, hexit, eq_false_of_ne_true hother, Bool.not_false,
              Bool.true_and]
          have hgone : Gone s (log ++ s.runs t) t rest := by
            refine ⟨hdown, done ++ [p], by rw [hdone]; simp, ?_, ?_⟩
            · rw [hruns, dtorsOf, List.filterMap_append, ← dtorsOf, hlog, List.filter_append]
              by_cases hc : s.constructed p = true <;> simp [hc]
            · intro d hd
              rw [List.mem_append, List.mem_singleton] at hd
              rcases hd with hd | rfl
              · exact hall d hd
              · -- what is in the list has been started
                have hmem : d ∈ ctorsOf log := by
                  have : d ∈ s.finiHead := by rw [hdone]; simp
                  rw [hv.fini, List.mem_filter, List.mem_reverse] at this
                  exact this.1
                rcases (hv.started d).mp hmem with hc | ⟨u, hu⟩
                · exact Or.inl hc
                · have : u = t := by simpa [hu] using hother
                  exact Or.inr (by rw [hu, this])
          simp only [Linker.exitScan, if_neg hother]
          exact h.goto ht rfl rfl rfl hgone
    | wait rest =>
      have hruns : log ++ s.runs t = log := by simp [Linker.runs, hexit]
      rw [hruns]
      exact h.goto ht rfl rfl rfl (hgoing rest rfl)
    | returned => simp [Linker.ready, hexit] at hready
  | none =>
    obtain ⟨hcalled, hdown, hexiting⟩ := exit_next hasFini hexit
    exact h.congr hcalled hdown hexiting (dtorsOf_runs hexit) fun u rest hu hg =>
      gone_next hv hexit hu hg

theorem exits_step (e : Act τ δ) (h : Exits s log) (hv : s.Visited hasFini log)
    (he : (initFini hasFini).enabled s e) :
    Exits ((initFini hasFini).step s e) (log ++ ran s e) := by
  cases e with
  | call t queue =>
    exact h.congr rfl rfl rfl (congrArg dtorsOf (List.append_nil log)) fun _ _ _ hg => hg
  | exit t =>
    have hlog : log ++ ran s (Act.exit t) = log := List.append_nil log
    obtain ⟨hdown, hnone⟩ := h.before he.2
    have hexiting : ∀ u, Function.update s.exiting t (some .lock) u ≠ none → u = t := by
      intro u hu
      by_contra hne
      rw [Function.update_of_ne hne] at hu
      exact hu (hnone u)
    rw [hlog]
    refine ⟨fun hc => (nomatch hc), fun u v hu hv => (hexiting u hu).trans (hexiting v hv).symm,
      fun _ _ => rfl, h.idle, fun u pc rest hpc hrest => ?_, fun hd => ?_⟩
    · have hpc' : Function.update s.exiting t (some .lock) u = some pc := hpc
      cases hexiting u (by simp [hpc'])
      rw [Function.update_self] at hpc'
      cases hpc'
      cases hrest
    · have : s.shuttingDown = true := hd
      rw [hdown] at this
      cases this
  | next t => exact exits_next h hv he

theorem exits_run (hr : (initFini hasFini).Run Linker.initial es s) :
    Exits s (logOf hasFini es) := by
  have : s.Visited hasFini ([] ++ logOf hasFini es) ∧ Exits s ([] ++ logOf hasFini es) :=
    hr.invariant_emitted (I := fun s log => s.Visited hasFini log ∧ Exits s log)
      (fun _ e _ hs he => ⟨visited_step e hs.1 he, exits_step e hs.2 hs.1 he⟩)
      ⟨visited_initial, exits_initial⟩
  exact this.2

/-- In every run destructors run in the reverse order of the constructors, those of an object at
most once and only when it is constructed, and not before the program exits; then no constructors
start any more. When `__libc_exit_fini` returns, the destructors of all objects have run, but for
those whose constructors the exiting thread is at. -/
theorem initFini_destructors (hr : (initFini hasFini).Run Linker.initial es s) :
    (dtorsOf (logOf hasFini es)).Sublist (ctorsOf (logOf hasFini es)).reverse ∧
      (dtorsOf (logOf hasFini es)).Nodup ∧
      (∀ d ∈ dtorsOf (logOf hasFini es), s.constructed d = true ∧ hasFini d = true) ∧
      (s.shuttingDown = false → dtorsOf (logOf hasFini es) = []) ∧
      (s.shuttingDown = true → ∀ e, ctorsOf (ran s e) = []) ∧
      ∀ t, s.exiting t = some .returned → dtorsOf (logOf hasFini es) =
        (ctorsOf (logOf hasFini es)).reverse.filter
          fun d => hasFini d && s.visitor d != some t := by
  have hv := visited_run hr
  have hx := exits_run hr
  have hgone : ∃ done rest, s.finiHead = done ++ rest ∧
      dtorsOf (logOf hasFini es) = done.filter s.constructed := by
    by_cases hd : s.shuttingDown = true
    · obtain ⟨t, pc, rest, hpc, hrest⟩ := hx.running hd
      obtain ⟨_, done, hdone, hlog, _⟩ := hx.going t pc rest hpc hrest
      exact ⟨done, rest, hdone, hlog⟩
    · exact ⟨[], s.finiHead, rfl, hx.idle (by simpa using hd)⟩
  obtain ⟨done, rest, hdone, hlog⟩ := hgone
  have hsub : (dtorsOf (logOf hasFini es)).Sublist s.finiHead := by
    rw [hlog, hdone]
    exact List.filter_sublist.trans (List.sublist_append_left done rest)
  have hfini : s.finiHead.Sublist (ctorsOf (logOf hasFini es)).reverse := by
    rw [hv.fini]
    exact List.filter_sublist
  refine ⟨hsub.trans hfini, (hsub.trans hfini).nodup (List.nodup_reverse.mpr hv.once), ?_, hx.idle,
    fun hd e => ?_, fun t ht => ?_⟩
  · intro d hd
    have hmem := hsub.subset hd
    rw [hv.fini, List.mem_filter] at hmem
    rw [hlog, List.mem_filter] at hd
    exact ⟨hd.2, hmem.2⟩
  · cases e with
    | call t queue => rfl
    | exit t => rfl
    | next t => exact runs_of_shuttingDown hd t
  · obtain ⟨_, done, hdone, hlog, hall⟩ := hx.going t .returned [] ht rfl
    rw [List.append_nil] at hdone
    rw [hlog, ← hdone, hv.fini, List.filter_filter]
    refine List.filter_congr fun d hd => ?_
    by_cases hf : hasFini d = true
    · have hmem : d ∈ done := by
        rw [← hdone, hv.fini]
        exact List.mem_filter.mpr ⟨hd, hf⟩
      rcases hall d hmem with hc | hvisit
      · have hne : s.visitor d ≠ some t := fun hvisit => by
          rw [hv.fresh d t hvisit] at hc
          cases hc
        simp [hf, hc, hne]
      · simp [hvisit, hv.fresh d t hvisit]
    · simp [hf]

theorem initFini_destructors_shortProgram :
    let s := shortProgram.foldl (initFini fun d => d != 1).step Linker.initial
    let log := logOf (fun d => d != 1) shortProgram
    (dtorsOf log).Sublist (ctorsOf log).reverse ∧ (dtorsOf log).Nodup ∧
      (∀ d ∈ dtorsOf log, s.constructed d = true ∧ (d != 1) = true) ∧
      (s.shuttingDown = false → dtorsOf log = []) ∧
      (s.shuttingDown = true → ∀ e, ctorsOf (ran s e) = []) ∧
      ∀ t, s.exiting t = some .returned →
        dtorsOf log = (ctorsOf log).reverse.filter fun d => d != 1 && s.visitor d != some t :=
  initFini_destructors (System.Run.of_enabledAll (by decide))

example : dtorsOf (logOf (fun d => d != 1) shortProgram) = [0, 2] := by decide

end Ldso
