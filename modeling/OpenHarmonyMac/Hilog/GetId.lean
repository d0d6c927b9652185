import OpenHarmonyMac.Infra.Census
import OpenHarmonyMac.Infra.Transition

/-!
# The function that provides trace ids

`HiLogPrintArgs` asks a registered function for the trace id. `HiLogUnregisterGetIdFun` takes the
function away, and then waits until no thread is in a call of it. Each access to one of the two
variables is one step here, and the steps of the threads come in any order. All threads see them in
this one order, which is more than the plain and the relaxed accesses of the source give.

* `Printer.next` — the next access of a thread
* `getId` — the threads, interleaved in any order
* `getId_calls` — which functions are called
-/

namespace Hilog.GetId

open Infra

variable {τ φ : Type} [DecidableEq τ] [DecidableEq φ]

/-- Where a thread is: the access that comes next, with what its local variables hold. -/
inductive Pc (φ : Type)
  | out
  -- `HiLogPrintArgs`
  | print
  | add
  | load
  | check (func : Option φ)
  | call (func : Option φ)
  | sub
  -- `HiLogRegisterGetIdFun`
  | register (registerFunc : Option φ)
  | registerStore (registerFunc : Option φ)
  -- `HiLogUnregisterGetIdFun`
  | unregister (registerFunc : Option φ)
  | unregisterStore (registerFunc : Option φ)
  | wait (registerFunc : Option φ)
  deriving DecidableEq, Repr

/-- `g_registerFunc`, where `none` is `nullptr`, `g_hiLogGetIdCallCount` and the threads. -/
structure Printer (τ φ : Type) where
  registerFunc : Option φ := none
  getIdCallCount : Int := 0
  pc : τ → Pc φ

inductive Act (τ φ : Type)
  | print (t : τ)
  | register (t : τ) (registerFunc : Option φ)
  | unregister (t : τ) (registerFunc : Option φ)
  | next (t : τ)

namespace Printer

def goto (s : Printer τ φ) (t : τ) (pc : Pc φ) : Printer τ φ :=
  { s with pc := Function.update s.pc t pc }

/-- The next access of a thread. A call of `nullptr` does not return. -/
def next (s : Printer τ φ) (t : τ) : Printer τ φ :=
  match s.pc t with
  | .out => s
  | .print => s.goto t (if s.registerFunc.isSome then .add else .out)
  | .add => { s with getIdCallCount := s.getIdCallCount + 1 }.goto t .load
  | .load => s.goto t (.check s.registerFunc)
  | .check func => s.goto t (if s.registerFunc.isSome then .call func else .sub)
  | .call (some _) => s.goto t .sub
  | .call none => s
  | .sub => { s with getIdCallCount := s.getIdCallCount - 1 }.goto t .out
  | .register func => s.goto t (if s.registerFunc.isSome then .out else .registerStore func)
  | .registerStore func => { s with registerFunc := func }.goto t .out
  | .unregister func => s.goto t (if s.registerFunc ≠ func then .out else .unregisterStore func)
  | .unregisterStore func => { s with registerFunc := none }.goto t (.wait func)
  | .wait _ => if s.getIdCallCount ≠ 0 then s else s.goto t .out

def step (s : Printer τ φ) : Act τ φ → Printer τ φ
  | .print t => s.goto t .print
  | .register t func => s.goto t (.register func)
  | .unregister t func => s.goto t (.unregister func)
  | .next t => s.next t

def Enabled (s : Printer τ φ) : Act τ φ → Prop
  | .print t | .register t _ | .unregister t _ => s.pc t = .out
  | .next t => s.pc t ≠ .out

instance (s : Printer τ φ) : ∀ e, Decidable (s.Enabled e)
  | .print t | .register t _ | .unregister t _ => inferInstanceAs (Decidable (s.pc t = .out))
  | .next t => inferInstanceAs (Decidable (s.pc t ≠ .out))

/-- What `HiLogRegisterGetIdFun` stores in a step. -/
def stores (s : Printer τ φ) : Act τ φ → Option (Option φ)
  | .next t =>
    match s.pc t with
    | .registerStore func => some func
    | _ => none
  | _ => none

end Printer

/-- The threads, of which each may print, register and unregister at any time. -/
def getId : System (Printer τ φ) (Act τ φ) where
  init s := s.registerFunc = none ∧ s.getIdCallCount = 0 ∧ ∀ t, s.pc t = .out
  enabled := Printer.Enabled
  step := Printer.step

instance : ∀ (s : Printer τ φ) e, Decidable (getId.enabled s e) :=
  fun s e => inferInstanceAs (Decidable (s.Enabled e))

/-- The thread is between the two changes of the count. -/
def Pc.counted : Pc φ → Bool
  | .load | .check _ | .call _ | .sub => true
  | _ => false

/-- The function that the thread calls, or is about to call. -/
def Pc.func? : Pc φ → Option (Option φ)
  | .check func | .call func => some func
  | _ => none

variable {s s' u : Printer τ φ} {t : τ} {e : Act τ φ} {es : List (Act τ φ)} {f : φ}

/-! ## One step -/

/-- What a step does: one thread moves on, and the variables change as it says. -/
structure Moves (s : Printer τ φ) (e : Act τ φ) (t : τ) (pc : Pc φ) : Prop where
  moved : (s.step e).pc = Function.update s.pc t pc
  count : (s.step e).getIdCallCount + (s.pc t).counted.toNat =
    s.getIdCallCount + pc.counted.toNat
  func : pc.func? = (s.pc t).func? ∨ pc.func? = none ∨
    s.pc t = .load ∧ pc = .check s.registerFunc
  calls : pc = .call none → s.pc t = .call none ∨ s.pc t = .check none ∧ s.registerFunc ≠ none
  stored : (s.step e).registerFunc = s.registerFunc ∨ (s.step e).registerFunc = none ∨
    s.stores e = some (s.step e).registerFunc

/-- A step that only moves a thread, to where it has no function to call. -/
theorem moves_goto {pc pc' : Pc φ} (hpc : s.pc t = pc') (hstep : s.step e = s.goto t pc)
    (hcount : pc'.counted = pc.counted) (hfunc : pc.func? = none) : Moves s e t pc := by
  refine ⟨by rw [hstep]; rfl, ?_, Or.inr (Or.inl hfunc), ?_, Or.inl (by rw [hstep]; rfl)⟩
  · rw [hstep, hpc, hcount]
    rfl
  · rintro rfl
    cases hfunc

/-- A thread goes on to a call of the function that it has loaded, or has no function left. -/
theorem moves_check {g : Option φ} (hpc : s.pc t = .check g) : ∃ pc, Moves s (.next t) t pc := by
  have hstep : s.step (.next t) = s.next t := rfl
  rw [Printer.next, hpc] at hstep
  by_cases hsome : s.registerFunc.isSome = true
  · simp only [if_pos hsome] at hstep
    refine ⟨.call g, by rw [hstep]; rfl, ?_, Or.inl ?_, fun h => Or.inr ⟨?_, ?_⟩,
      Or.inl (by rw [hstep]; rfl)⟩
    · rw [hstep, hpc]
      rfl
    · rw [hpc]
      rfl
    · cases h
      exact hpc
    · exact Option.isSome_iff_ne_none.mp hsome
  · simp only [if_neg hsome] at hstep
    exact ⟨.sub, moves_goto hpc hstep rfl rfl⟩

theorem exists_moves (e : Act τ φ) (he : s.Enabled e) : ∃ t pc, Moves s e t pc := by
  cases e with
  | print t => exact ⟨t, .print, moves_goto he rfl rfl rfl⟩
  | register t g => exact ⟨t, .register g, moves_goto he rfl rfl rfl⟩
  | unregister t g => exact ⟨t, .unregister g, moves_goto he rfl rfl rfl⟩
  | next t =>
    have hstep : s.step (.next t) = s.next t := rfl
    refine ⟨t, ?_⟩
    cases hpc : s.pc t with
    | out => exact absurd hpc he
    | check g => exact moves_check hpc
    | print =>
      rw [Printer.next, hpc] at hstep
      refine ⟨_, moves_goto hpc hstep ?_ ?_⟩ <;> split <;> rfl
    | register g =>
      rw [Printer.next, hpc] at hstep
      refine ⟨_, moves_goto hpc hstep ?_ ?_⟩ <;> split <;> rfl
    | unregister g =>
      rw [Printer.next, hpc] at hstep
      refine ⟨_, moves_goto hpc hstep ?_ ?_⟩ <;> split <;> rfl
    | load =>
      rw [Printer.next, hpc] at hstep
      refine ⟨.check s.registerFunc, by rw [hstep]; rfl, ?_, Or.inr (Or.inr ⟨hpc, rfl⟩),
        fun h => (by cases h), Or.inl (by rw [hstep]; rfl)⟩
      rw [hstep, hpc]
      rfl
    | call g =>
      rw [Printer.next, hpc] at hstep
      cases g with
      | some g => exact ⟨.sub, moves_goto hpc hstep rfl rfl⟩
      | none =>
        refine ⟨s.pc t, ?_, by rw [hstep], Or.inl rfl, fun h => Or.inl h, Or.inl (by rw [hstep])⟩
        rw [hstep, Function.update_eq_self]
    | wait g =>
      rw [Printer.next, hpc] at hstep
      by_cases hzero : s.getIdCallCount ≠ 0
      · simp only [if_pos hzero] at hstep
        refine ⟨s.pc t, ?_, by rw [hstep], Or.inl rfl, fun h => Or.inl h, Or.inl (by rw [hstep])⟩
        rw [hstep, Function.update_eq_self]
      · simp only [if_neg hzero] at hstep
        exact ⟨.out, moves_goto hpc hstep rfl rfl⟩
    | add =>
      rw [Printer.next, hpc] at hstep
      refine ⟨.load, by rw [hstep]; rfl, ?_, Or.inr (Or.inl rfl), fun h => (by cases h),
        Or.inl (by rw [hstep]; rfl)⟩
      rw [hstep, hpc]
      exact Int.add_zero _
    | sub =>
      rw [Printer.next, hpc] at hstep
      refine ⟨.out, by rw [hstep]; rfl, ?_, Or.inr (Or.inl rfl), fun h => (by cases h),
        Or.inl (by rw [hstep]; rfl)⟩
      rw [hstep, hpc]
      show s.getIdCallCount - 1 + 1 = s.getIdCallCount + 0
      omega
    | registerStore g =>
      rw [Printer.next, hpc] at hstep
      refine ⟨.out, by rw [hstep]; rfl, ?_, Or.inr (Or.inl rfl), fun h => (by cases h),
        Or.inr (Or.inr ?_)⟩
      · rw [hstep, hpc]
        rfl
      · rw [hstep, Printer.stores, hpc]
        rfl
    | unregisterStore g =>
      rw [Printer.next, hpc] at hstep
      refine ⟨.wait g, by rw [hstep]; rfl, ?_, Or.inr (Or.inl rfl), fun h => (by cases h),
        Or.inr (Or.inl (by rw [hstep]; rfl))⟩
      rw [hstep, hpc]
      rfl

/-! ## The count -/

section Count

variable [Fintype τ]

/-- The count is the number of threads between its two changes. -/
def Counts (s : Printer τ φ) : Prop := s.getIdCallCount = census Pc.counted s.pc

theorem counts_step (e : Act τ φ) (hs : Counts s) (he : s.Enabled e) : Counts (s.step e) := by
  obtain ⟨t, pc, hm⟩ := exists_moves e he
  have hcensus := census_update Pc.counted s.pc t pc
  have hcount := hm.count
  unfold Counts at hs ⊢
  rw [hm.moved]
  omega

omit [DecidableEq τ] [DecidableEq φ] in
theorem counts_initial (hcount : s.getIdCallCount = 0) (hout : ∀ t, s.pc t = .out) : Counts s := by
  rw [Counts, hcount, census_eq_zero fun t => by rw [hout t]; rfl]
  rfl

omit [DecidableEq τ] [DecidableEq φ] in
theorem not_counted (hs : Counts s) (hzero : s.getIdCallCount = 0) (t : τ) :
    (s.pc t).counted = false := by
  unfold Counts at hs
  exact eq_false_of_census (by omega) t

end Count

omit [DecidableEq φ] in
theorem func_eq_none {pc : Pc φ} (h : pc.counted = false) : pc.func? = none := by
  cases pc <;> first | rfl | cases h

/-! ## Which functions are called -/

/-- The function is neither registered nor called. -/
def Gone (f : φ) (s : Printer τ φ) : Prop :=
  s.registerFunc ≠ some f ∧ ∀ t, (s.pc t).func? ≠ some (some f)

theorem gone_step (e : Act τ φ) (hs : Gone f s) (he : s.Enabled e)
    (hstore : s.stores e ≠ some (some f)) : Gone f (s.step e) := by
  obtain ⟨t, pc, hm⟩ := exists_moves e he
  refine ⟨fun hf => ?_, fun t' hf => ?_⟩
  · rcases hm.stored with h | h | h
    · exact hs.1 (h.symm.trans hf)
    · rw [h] at hf
      cases hf
    · rw [hf] at h
      exact hstore h
  · rw [hm.moved] at hf
    by_cases ht : t' = t
    · rw [ht, Function.update_self] at hf
      rcases hm.func with h | h | ⟨-, h⟩
      · exact hs.2 t (h.symm.trans hf)
      · rw [h] at hf
        cases hf
      · rw [h] at hf
        exact hs.1 (Option.some.inj hf)
    · rw [Function.update_of_ne ht] at hf
      exact hs.2 t' hf

/-- No thread calls `nullptr`, or has loaded it while a function is registered. -/
def NoNull (s : Printer τ φ) : Prop :=
  ∀ t, s.pc t ≠ .call none ∧ (s.pc t = .check none → s.registerFunc = none)

theorem noNull_step [Fintype τ] (e : Act τ φ) (hs : NoNull s) (hcount : Counts s)
    (he : s.Enabled e)
    (hstore : ∀ g, s.stores e = some g → s.getIdCallCount = 0) : NoNull (s.step e) := by
  obtain ⟨t, pc, hm⟩ := exists_moves e he
  -- while a thread is counted, nothing is stored
  have hkeep : ∀ t', (s.pc t').counted = true → s.registerFunc = none →
      (s.step e).registerFunc = none := by
    intro t' ht' hnone
    rcases hm.stored with h | h | h
    · exact h.trans hnone
    · exact h
    · rw [not_counted hcount (hstore _ h) t'] at ht'
      cases ht'
  intro t'
  rw [hm.moved]
  by_cases ht : t' = t
  · rw [ht, Function.update_self]
    constructor
    · intro hcall
      rcases hm.calls hcall with h | ⟨h, hsome⟩
      · exact (hs t).1 h
      · exact hsome ((hs t).2 h)
    · rintro rfl
      rcases hm.func with h | h | ⟨hload, h⟩
      · have hfunc : (s.pc t).func? = some none := h.symm
        cases hpc : s.pc t with
        | check g =>
          rw [hpc] at hfunc
          cases hfunc
          exact hkeep t (by rw [hpc]; rfl) ((hs t).2 hpc)
        | call g =>
          rw [hpc] at hfunc
          cases hfunc
          exact absurd hpc (hs t).1
        | _ =>
          rw [hpc] at hfunc
          cases hfunc
      · cases h
      · exact hkeep t (by rw [hload]; rfl) (Pc.check.inj h).symm
  · rw [Function.update_of_ne ht]
    exact ⟨(hs t').1, fun h => hkeep t' (by rw [h]; rfl) ((hs t').2 h)⟩

/-- When `HiLogUnregisterGetIdFun` is through with its wait and the function is not registered
again, no thread calls it, until it is registered once more. `nullptr` is never called in a run that
registers functions only while no thread is at a call. -/
theorem getId_calls [Fintype τ] {s₀ : Printer τ φ} (h₀ : getId.init s₀) (hr : getId.Run s₀ es s) :
    (∀ t, s.pc t = .wait (some f) → s.getIdCallCount = 0 → s.registerFunc ≠ some f →
        ∀ es' u, (getId.restrict fun s e => s.stores e ≠ some (some f)).Run s es' u →
          u.registerFunc ≠ some f ∧ ∀ t', (u.pc t').func? ≠ some (some f)) ∧
      ((getId.restrict fun s e => ∀ g, s.stores e = some g → s.getIdCallCount = 0).Run s₀ es s →
        ∀ t, s.pc t ≠ .call none) := by
  obtain ⟨-, hzero₀, hout⟩ := h₀
  have hcounts₀ := counts_initial hzero₀ hout
  have hcounts : Counts s := hr.invariant (fun _ e => counts_step e) hcounts₀
  refine ⟨fun t _ hzero hf es' u hu => ?_, fun hr' => ?_⟩
  · have hstep : ∀ (s : Printer τ φ) e, Gone f s →
        (getId.restrict fun s e => s.stores e ≠ some (some f)).enabled s e →
        Gone f (getId.step s e) :=
      fun s e hs he => gone_step e hs he.1 he.2
    have hgone : Gone f s → Gone f u := hu.invariant hstep
    refine hgone ⟨hf, fun t' h => ?_⟩
    rw [func_eq_none (not_counted hcounts hzero t')] at h
    cases h
  · have hstep : ∀ (s : Printer τ φ) e, Counts s ∧ NoNull s →
        (getId.restrict fun s e => ∀ g, s.stores e = some g → s.getIdCallCount = 0).enabled s e →
        Counts (getId.step s e) ∧ NoNull (getId.step s e) :=
      fun s e hs he => ⟨counts_step e hs.1 he.1, noNull_step e hs.2 hs.1 he.1 he.2⟩
    refine fun t => ((hr'.invariant hstep ⟨hcounts₀, fun t => ?_⟩).2 t).1
    rw [hout t]
    exact ⟨fun h => (by cases h), fun h => (by cases h)⟩

/-- A thread is at a call while another one takes the function away. -/
def overlap : List (Act (Fin 2) Nat) :=
  [.register 1 (some 7), .next 1, .next 1, .print 0, .next 0, .next 0, .next 0,
    .unregister 1 (some 7), .next 1, .next 1, .next 0, .next 0]

def idle : Printer (Fin 2) Nat where
  pc _ := .out

theorem getId_calls_overlap :
    let s := overlap.foldl Printer.step idle
    (∀ t, s.pc t = .wait (some 7) → s.getIdCallCount = 0 → s.registerFunc ≠ some 7 →
        ∀ es' u, (getId.restrict fun s e => s.stores e ≠ some (some 7)).Run s es' u →
          u.registerFunc ≠ some 7 ∧ ∀ t', (u.pc t').func? ≠ some (some 7)) ∧
      ((getId.restrict fun s e => ∀ g, s.stores e = some g → s.getIdCallCount = 0).Run idle overlap
          s → ∀ t, s.pc t ≠ .call none) :=
  getId_calls ⟨rfl, rfl, fun _ => rfl⟩ (System.Run.of_enabledAll (by decide))

example : (overlap.foldl Printer.step idle).pc 1 = .wait (some 7) ∧
    (overlap.foldl Printer.step idle).getIdCallCount = 0 := by decide

end Hilog.GetId
