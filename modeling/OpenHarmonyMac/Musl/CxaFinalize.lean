import OpenHarmonyMac.Musl.Atexit

/-!
# What `__cxa_finalize` runs

The loop of `__cxa_finalize` goes through the list from the newest handler to the oldest, while
others register handlers behind it.

* `Finalizes` — how far the loop is, and what it leaves behind
* `cxaFinalize_runs` — what a call runs, and what it leaves
-/

namespace Musl.Atexit

open Infra

variable {φ α δ : Type} [DecidableEq δ]

variable {s t : ExitFuncs φ α δ} {n : Nat} {d : δ} {log : List (Ev φ α δ)} {es : List (Act φ α δ)}

/-- A handler that `__cxa_finalize` calls. -/
def due (d : δ) (h : Handler φ α δ) : Bool := h.dso = d && h.func.isSome

/-- A handler that `__cxa_finalize` leaves in the list. -/
def stays (d : δ) (h : Handler φ α δ) : Bool := h.dso ≠ d

/-- How far `__cxa_finalize` is with the handlers `hs`, the newest first: some are `done`, and the
nodes of the `rest` are behind those that are kept and those that are new. -/
def Finalizes (d : δ) (hs : List (Handler φ α δ)) (s : ExitFuncs φ α δ)
    (log : List (Ev φ α δ)) (steps : Nat) : Prop :=
  Sound s ∧ ∃ done kept rest, s.list.nodes = kept ++ rest ∧
    hs = done ++ rest.map s.list.entry ∧
    kept.map s.list.entry = (registeredOf log).reverse ++ done.filter (stays d) ∧
    match s.pc with
    | .finalize d' o => d' = d ∧ o = rest.head? ∧ calledOf log = done.filter (due d) ∧
      steps + 2 * rest.length ≤ 2 * hs.length
    | .finalizeCall d' n => d' = d ∧ rest.head? = some n ∧ due d (s.list.entry n) = true ∧
      calledOf log = done.filter (due d) ++ [s.list.entry n] ∧
      steps + 2 * rest.length ≤ 2 * hs.length + 1
    | .idle => rest = [] ∧ calledOf log = done.filter (due d) ∧ steps ≤ 2 * hs.length + 1
    | _ => False

theorem finalizes_cxaAtexit {hs : List (Handler φ α δ)} {k : Nat} (hf : Finalizes d hs s log k)
    (hu : s.Unlocked) (h : Handler φ α δ) (malloc : Bool) :
    Finalizes d hs (s.step (.cxaAtexit h malloc)) (log ++ s.events (.cxaAtexit h malloc)) k := by
  obtain ⟨hs', done, kept, rest, hnodes, hdone, hkept, hpc⟩ := hf
  rcases cxaAtexit_cases hs' hu h malloc with ⟨hstep, hev⟩ |
    ⟨list, n, hn, -, hstep, hev, hnodes', hentry, hsound⟩
  · rw [hstep, hev, List.append_nil]
    exact ⟨hs', done, kept, rest, hnodes, hdone, hkept, hpc⟩
  have hold : ∀ m ∈ kept ++ rest, list.entry m = s.list.entry m := fun m hm => by
    rw [hnodes] at hn
    rw [hentry, Function.update_of_ne (ne_of_mem_of_not_mem hm hn)]
  have hrest : rest.map list.entry = rest.map s.list.entry :=
    List.map_congr_left fun m hm => hold m (List.mem_append_right _ hm)
  have hkept' : kept.map list.entry = kept.map s.list.entry :=
    List.map_congr_left fun m hm => hold m (List.mem_append_left _ hm)
  rw [hstep, hev]
  refine ⟨hsound, done, n :: kept, rest, by rw [hnodes', hnodes, List.cons_append], ?_, ?_, ?_⟩
  · exact hrest ▸ hdone
  · rw [List.map_cons, hkept', hkept, registeredOf_append, List.reverse_append]
    show list.entry n :: _ = [h] ++ _ ++ _
    rw [hentry, Function.update_self]
    rfl
  · have hcalled : calledOf (log ++ [.registered h s.pc.exiting]) = calledOf log := by
      rw [calledOf_append]
      exact List.append_nil _
    rw [hcalled]
    rcases unlocked_cases hu with hpc' | ⟨d', m, hpc'⟩ | hpc' <;> rw [hpc'] at hpc <;>
      simp only [hpc']
    · exact hpc
    · obtain ⟨hd, hhead, hdue, hcalls, hsteps⟩ := hpc
      rw [hold m (List.mem_append_right _ (List.mem_of_head? hhead))]
      exact ⟨hd, hhead, hdue, hcalls, hsteps⟩
    · exact hpc

omit [DecidableEq δ] in
theorem Sound.split {kept rest : List Nat} (hs : Sound s)
    (hnodes : s.list.nodes = kept ++ n :: rest) :
    ∃ free, Represents s.list (rest.reverse ++ n :: kept.reverse) free ∧
      Located s.list (rest.reverse ++ n :: kept.reverse) free s.pc := by
  obtain ⟨-, used, free, hl, hloc⟩ := hs
  have hused : used = rest.reverse ++ n :: kept.reverse := by
    rw [hl.nodes_eq] at hnodes
    rw [← used.reverse_reverse, hnodes]
    simp
  exact ⟨free, hused ▸ hl, hused ▸ hloc⟩

/-- A node of the rest is removed, in a step of `__cxa_finalize`. -/
theorem finalizes_remove {hs : List (Handler φ α δ)} {k : Nat} {done : List (Handler φ α δ)}
    {kept rest : List Nat} (hsound : Sound s) (hnodes : s.list.nodes = kept ++ n :: rest)
    (hlen : s.list.len = s.list.nodes.length)
    (hdone : hs = done ++ (n :: rest).map s.list.entry)
    (hkept : kept.map s.list.entry = (registeredOf log).reverse ++ done.filter (stays d))
    (hd : d = (s.list.entry n).dso)
    (hcalled : calledOf log = (done ++ [s.list.entry n]).filter (due d))
    (hsteps : k + 2 * rest.length ≤ 2 * hs.length) : Finalizes d hs (s.remove d n) log k := by
  obtain ⟨free, hl, hloc⟩ := hsound.split hnodes
  have hlen' : s.list.len = (rest.reverse ++ n :: kept.reverse).length := by
    rw [hlen, hl.nodes_eq, List.length_reverse]
  obtain ⟨list, hremove, hl', ha, hlen'', hentry⟩ := remove_spec hl hlen' d
  rw [hremove]
  refine ⟨⟨hsound.1, _, _, hl', ha, hlen'', fun m hm => ?_⟩, done ++ [s.list.entry n], kept, rest,
    ?_, ?_, ?_, rfl, ?_, hcalled, hsteps⟩
  · exact List.mem_append_left _ (List.mem_of_getLast? hm)
  · rw [hl'.nodes_eq, List.reverse_append, List.reverse_reverse, List.reverse_reverse]
  · rw [hentry, hdone]
    simp
  · rw [hentry, hkept, List.filter_append]
    simp [stays, hd]
  · exact List.getLast?_reverse

theorem finalizes_next {hs : List (Handler φ α δ)} {k : Nat} (hf : Finalizes d hs s log k)
    (hr : s.Running) : Finalizes d hs s.next (log ++ s.events .next) (k + 1) := by
  obtain ⟨hsound, done, kept, rest, hnodes, hdone, hkept, hpc⟩ := hf
  have hlen : (∃ d' o, s.pc = .finalize d' o) ∨ (∃ d' n, s.pc = .finalizeCall d' n) →
      s.list.len = s.list.nodes.length := by
    obtain ⟨-, used, free, hl, hloc⟩ := hsound
    rw [hl.nodes_eq, List.length_reverse]
    rintro (⟨d', o, h⟩ | ⟨d', n, h⟩) <;> rw [h] at hloc
    · exact hloc.2.1
    · exact hloc.1
  cases hpc' : s.pc with
  | idle => exact absurd hpc' hr
  | exit =>
    rw [hpc'] at hpc
    exact hpc.elim
  | exitCall =>
    rw [hpc'] at hpc
    exact hpc.elim
  | finalizeCall d' n =>
    rw [hpc'] at hpc
    obtain ⟨rfl, hhead, hdue, hcalled, hsteps⟩ := hpc
    obtain ⟨rest, rfl⟩ := List.head?_eq_some_iff.mp hhead
    have hnext : s.next = s.remove d' n := by simp only [ExitFuncs.next, hpc']
    have hev : s.events .next = [] := by simp only [ExitFuncs.events, hpc']
    have hd : (s.list.entry n).dso = d' := by
      simp only [due, Bool.and_eq_true, decide_eq_true_eq] at hdue
      exact hdue.1
    rw [hnext, hev, List.append_nil]
    refine finalizes_remove hsound hnodes (hlen (Or.inr ⟨_, _, hpc'⟩)) hdone hkept hd.symm ?_ ?_
    · rw [hcalled, List.filter_append, List.filter_singleton, hdue]
      rfl
    · rw [List.length_cons] at hsteps
      omega
  | finalize d' o =>
    rw [hpc'] at hpc
    obtain ⟨rfl, hhead, hcalled, hsteps⟩ := hpc
    cases rest with
    | nil =>
      rw [List.head?_nil] at hhead
      rw [hhead] at hpc'
      have hnext : s.next = { s with pc := .idle } := by simp only [ExitFuncs.next, hpc']
      have hev : s.events .next = [] := by simp only [ExitFuncs.events, hpc']
      obtain ⟨hcrashed, used, free, hl, hloc⟩ := hsound
      rw [hpc'] at hloc
      rw [hnext, hev, List.append_nil]
      refine ⟨⟨hcrashed, used, free, hl, hloc.1, hloc.2.1⟩, done, kept, [], hnodes, hdone, hkept,
        rfl, hcalled, ?_⟩
      rw [List.length_nil] at hsteps
      omega
    | cons n rest =>
      rw [List.head?_cons] at hhead
      rw [hhead] at hpc'
      have hn := hlen (Or.inl ⟨_, _, hpc'⟩)
      rw [List.length_cons] at hsteps
      obtain ⟨free, hl, hloc⟩ := hsound.split hnodes
      rw [hpc'] at hloc
      by_cases hd : d' = (s.list.entry n).dso
      · rcases next_finalize_match hpc' hd with ⟨hfunc, hnext, hev⟩ | ⟨hfunc, hnext, hev⟩
        · have hdue : due d' (s.list.entry n) = true := by simp [due, hd, hfunc]
          rw [hnext, hev]
          refine ⟨⟨hsound.1, _, free, hl, hloc.2.1, hloc.2.2 n rfl⟩, done, kept, n :: rest, hnodes,
            hdone, ?_, rfl, rfl, hdue, ?_, ?_⟩
          · rw [registeredOf_append]
            simpa [registeredOf] using hkept
          · rw [calledOf_append, hcalled]
            rfl
          · rw [List.length_cons]
            omega
        · rw [hnext, hev, List.append_nil]
          refine finalizes_remove hsound hnodes hn hdone hkept hd ?_ (by omega)
          rw [hcalled, List.filter_append]
          simp [due, hfunc]
      · obtain ⟨hnext, hev⟩ := next_finalize_other hpc' hd
        have hprev : s.list.prev n = rest.head? := by
          rw [hl.prev_eq, List.getLast?_reverse]
        rw [hnext, hev, List.append_nil, hprev]
        refine ⟨⟨hsound.1, _, free, hl, hloc.1, hloc.2.1, fun m hm => ?_⟩,
          done ++ [s.list.entry n], kept ++ [n], rest, ?_, ?_, ?_, rfl, rfl, ?_, by omega⟩
        · exact List.mem_append_left _ (List.mem_reverse.mpr (List.mem_of_head? hm))
        · rw [hnodes]
          simp
        · rw [hdone]
          simp
        · show (kept ++ [n]).map s.list.entry = _
          rw [List.map_append, hkept, List.filter_append]
          simp [stays, Ne.symm hd]
        · rw [hcalled, List.filter_append]
          simp [due, Ne.symm hd]

/-- The events while `__cxa_finalize` runs. -/
def Act.during : Act φ α δ → Bool
  | .cxaAtexit _ _ | .next => true
  | .cxaFinalize _ | .exit => false

/-- The steps of the running call. -/
def Act.isNext : Act φ α δ → Bool
  | .next => true
  | _ => false

theorem finalizes_run {hs : List (Handler φ α δ)} {k : Nat} (hr : exitFuncs.Run s es t)
    (hes : ∀ e ∈ es, e.during = true) (hf : Finalizes d hs s log k) :
    Finalizes d hs t (log ++ logOf s es) (k + es.countP Act.isNext) := by
  induction hr generalizing log k with
  | nil s =>
    rw [logOf, System.emitted, List.append_nil]
    exact hf
  | @cons s e es t he _ ih =>
    rw [List.forall_mem_cons] at hes
    rw [logOf, System.emitted, ← List.append_assoc, List.countP_cons, Nat.add_comm (es.countP _),
      ← Nat.add_assoc]
    refine ih hes.2 ?_
    cases e with
    | cxaAtexit h malloc => exact finalizes_cxaAtexit hf he.2 h malloc
    | next => exact finalizes_next hf he.2
    | cxaFinalize d => exact absurd hes.1 Bool.false_ne_true
    | exit => exact absurd hes.1 Bool.false_ne_true

/-- In front of the end of `__funcs_on_exit`, a call of `__cxa_finalize` runs the handlers of its
library that are registered when it starts, the newest first and each of them once, whatever is
registered meanwhile. All others stay in the list, in their order. It cannot be stopped before it is
through, and takes two steps for a handler at most, and one to return. -/
theorem cxaFinalize_runs {s₀ : ExitFuncs φ α δ} {es₀ : List (Act φ α δ)} (h₀ : s₀.Initial)
    (hr₀ : exitFuncs.Run s₀ es₀ s) (hidle : s.pc = .idle) (hx : s.exited = false)
    (hr : exitFuncs.Run (s.step (.cxaFinalize d)) es t) (hes : ∀ e ∈ es, e.during = true) :
    (t.pc = .idle →
        calledOf (logOf (s.step (.cxaFinalize d)) es) = s.handlers.filter (due d) ∧
        t.handlers = (registeredOf (logOf (s.step (.cxaFinalize d)) es)).reverse ++
          s.handlers.filter (stays d)) ∧
      (t.pc ≠ .idle → exitFuncs.enabled t .next) ∧
      es.countP Act.isNext ≤ 2 * s.handlers.length + 1 := by
  obtain ⟨hcrashed, used, free, hl, hloc⟩ := (accounts_run h₀ hr₀ hx).sound
  rw [hidle] at hloc
  have hstart : Finalizes d s.handlers (s.step (.cxaFinalize d)) [] 0 := by
    refine ⟨⟨hcrashed, used, free, hl, hloc.1, hloc.2, fun n hn => ?_⟩, [], [], s.list.nodes, rfl,
      rfl, rfl, rfl, ?_, rfl, ?_⟩
    · rw [hl.tail] at hn
      exact List.mem_of_getLast? hn
    · rw [hl.tail, hl.nodes_eq, List.head?_reverse]
    · rw [ExitFuncs.handlers, List.length_map]
      omega
  obtain ⟨hsound, done, kept, rest, hnodes, hdone, hkept, hpc⟩ := finalizes_run hr hes hstart
  rw [List.nil_append] at hkept hpc
  rw [Nat.zero_add] at hpc
  cases hpc' : t.pc with
  | idle =>
    rw [hpc'] at hpc
    obtain ⟨rfl, hcalled, hsteps⟩ := hpc
    rw [List.map_nil, List.append_nil] at hdone
    rw [List.append_nil] at hnodes
    refine ⟨fun _ => ⟨by rw [hcalled, hdone], ?_⟩, fun h => absurd rfl h, hsteps⟩
    rw [ExitFuncs.handlers, hnodes, hkept, hdone]
  | finalize d' o =>
    rw [hpc'] at hpc
    refine ⟨fun h => (by cases h), fun _ => ⟨hsound.1, fun h => ?_⟩, by omega⟩
    rw [hpc'] at h
    cases h
  | finalizeCall d' n =>
    rw [hpc'] at hpc
    refine ⟨fun h => (by cases h), fun _ => ⟨hsound.1, fun h => ?_⟩, by omega⟩
    rw [hpc'] at h
    cases h
  | exit | exitCall =>
    rw [hpc'] at hpc
    exact hpc.elim

/-- The handlers of two libraries, of which one goes while the program runs. -/
def threeHandlers : List (Act Nat Nat Nat) :=
  [.cxaAtexit ⟨some 1, 10, 7⟩ false, .cxaAtexit ⟨some 2, 20, 8⟩ false,
    .cxaAtexit ⟨some 3, 30, 7⟩ false]

theorem cxaFinalize_runs_threeHandlers :
    let s := threeHandlers.foldl ExitFuncs.step atStart
    let es := [Act.next, .cxaAtexit ⟨some 4, 40, 7⟩ false, .next, .next, .next, .next, .next]
    let t := es.foldl ExitFuncs.step (s.step (.cxaFinalize 7))
    (t.pc = .idle →
        calledOf (logOf (s.step (.cxaFinalize 7)) es) = s.handlers.filter (due 7) ∧
        t.handlers = (registeredOf (logOf (s.step (.cxaFinalize 7)) es)).reverse ++
          s.handlers.filter (stays 7)) ∧
      (t.pc ≠ .idle → exitFuncs.enabled t .next) ∧
      es.countP Act.isNext ≤ 2 * s.handlers.length + 1 :=
  cxaFinalize_runs initial_atStart (System.Run.of_enabledAll (by decide)) (by decide) (by decide)
    (System.Run.of_enabledAll (by decide)) (by decide)

end Musl.Atexit
