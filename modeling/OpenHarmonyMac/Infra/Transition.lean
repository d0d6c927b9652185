import Mathlib.Tactic.Common

/-!
# Transition systems and their runs

A system is a set of initial states, a guard on events and a total step function.
The environment's choices are part of the event, so a run is fixed by its list of events.

* `System.Run` — a finite run between two states
* `System.Reachable` — reached by some run from an initial state
* `System.restrict` — the same system with a stronger guard

The invariant rules and the simulation rule at the end are the only inductions that a
development over a system needs.
-/

namespace Infra

/-- A guarded transition system. -/
structure System (σ ε : Type*) where
  init : σ → Prop
  enabled : σ → ε → Prop
  step : σ → ε → σ

namespace System

variable {σ ε : Type*} {sys : System σ ε} {s t u : σ} {e : ε} {es es' : List ε}

/-- `sys.Run s es t`: the events `es` lead from `s` to `t`, each of them enabled in its turn. -/
inductive Run (sys : System σ ε) : σ → List ε → σ → Prop
  | nil (s : σ) : Run sys s [] s
  | cons {s : σ} {e : ε} {es : List ε} {t : σ} :
      sys.enabled s e → Run sys (sys.step s e) es t → Run sys s (e :: es) t

/-- The states that some run from an initial state reaches. -/
def Reachable (sys : System σ ε) (t : σ) : Prop :=
  ∃ s es, sys.init s ∧ sys.Run s es t

/-- The runs in which every step also meets the condition `ok`. -/
def restrict (sys : System σ ε) (ok : σ → ε → Prop) : System σ ε where
  init := sys.init
  enabled s e := sys.enabled s e ∧ ok s e
  step := sys.step

/-! ## Composing and splitting runs -/

theorem Run.append (h : sys.Run s es t) (h' : sys.Run t es' u) : sys.Run s (es ++ es') u := by
  induction h with
  | nil => exact h'
  | cons he _ ih => exact Run.cons he (ih h')

theorem Run.single (he : sys.enabled s e) : sys.Run s [e] (sys.step s e) :=
  Run.cons he (Run.nil _)

theorem Run.snoc (h : sys.Run s es t) (he : sys.enabled t e) :
    sys.Run s (es ++ [e]) (sys.step t e) :=
  h.append (Run.single he)

/-- The end of a run is fixed by its events. -/
theorem Run.end_eq (h : sys.Run s es t) : t = es.foldl sys.step s := by
  induction h with
  | nil => rfl
  | cons _ _ ih => exact ih

/-- A run of two lists passes the state between them. -/
theorem Run.split : ∀ {s : σ} {es : List ε}, sys.Run s (es ++ es') t →
    ∃ u, sys.Run s es u ∧ sys.Run u es' t
  | s, [], h => ⟨s, Run.nil s, h⟩
  | _, _ :: _, Run.cons he h =>
    let ⟨u, hu, ht⟩ := Run.split h
    ⟨u, Run.cons he hu, ht⟩

theorem Reachable.of_init (h : sys.init s) : sys.Reachable s := ⟨s, [], h, Run.nil s⟩

theorem Reachable.run (h : sys.Reachable s) (hr : sys.Run s es t) : sys.Reachable t := by
  obtain ⟨s₀, es₀, h₀, hr₀⟩ := h
  exact ⟨s₀, es₀ ++ es, h₀, hr₀.append hr⟩

/-- A run of the restricted system is a run of the system. -/
theorem Run.of_restrict {ok : σ → ε → Prop} (h : (sys.restrict ok).Run s es t) :
    sys.Run s es t := by
  induction h with
  | nil s => exact Run.nil s
  | cons he _ ih => exact Run.cons he.1 ih

/-- A weaker guard has more runs. -/
theorem Run.mono {sys' : System σ ε} (h : sys.Run s es t) (hstep : sys'.step = sys.step)
    (he : ∀ s e, sys.enabled s e → sys'.enabled s e) : sys'.Run s es t := by
  induction h with
  | nil s => exact Run.nil s
  | cons h _ ih => exact Run.cons (he _ _ h) (hstep ▸ ih)

/-- A run whose events all meet a condition of their own. -/
theorem Run.restrict_of_forall {ok : ε → Prop} (h : sys.Run s es t) (hok : ∀ e ∈ es, ok e) :
    (sys.restrict fun _ e => ok e).Run s es t := by
  induction h with
  | nil s => exact Run.nil s
  | cons he _ ih =>
    rw [List.forall_mem_cons] at hok
    exact Run.cons ⟨he, hok.1⟩ (ih hok.2)

/-- A run meets a condition just in case each of its events does, in the state before it. -/
theorem Run.restrict_iff_forall {ok : σ → ε → Prop} (h : sys.Run s es t) :
    (sys.restrict ok).Run s es t ↔
      ∀ es₁ e es₂ u, es = es₁ ++ e :: es₂ → sys.Run s es₁ u → ok u e := by
  constructor
  · rintro hr es₁ e es₂ u rfl hu
    obtain ⟨u', hu', hr'⟩ := hr.split
    rw [hu.end_eq, ← hu'.of_restrict.end_eq]
    cases hr' with
    | cons he _ => exact he.2
  · intro hall
    induction h with
    | nil s => exact Run.nil s
    | @cons s e es t he _ ih =>
      refine Run.cons ⟨he, hall [] e es s rfl (Run.nil s)⟩ (ih ?_)
      rintro es₁ e' es₂ u rfl hu
      exact hall (e :: es₁) e' es₂ u rfl (Run.cons he hu)

/-- Each event of the list is enabled in its turn. -/
def EnabledAll (sys : System σ ε) : σ → List ε → Prop
  | _, [] => True
  | s, e :: es => sys.enabled s e ∧ EnabledAll sys (sys.step s e) es

instance EnabledAll.decidable (sys : System σ ε) [∀ s e, Decidable (sys.enabled s e)] :
    ∀ s es, Decidable (sys.EnabledAll s es)
  | _, [] => inferInstanceAs (Decidable True)
  | s, e :: es =>
    have := EnabledAll.decidable sys (sys.step s e) es
    inferInstanceAs (Decidable (_ ∧ _))

instance restrict_enabled_decidable (sys : System σ ε) (ok : σ → ε → Prop)
    [∀ s e, Decidable (sys.enabled s e)] [∀ s e, Decidable (ok s e)] :
    ∀ s e, Decidable ((sys.restrict ok).enabled s e) :=
  fun _ _ => inferInstanceAs (Decidable (_ ∧ _))

/-- A run is the fold of its events. -/
theorem Run.of_enabledAll : ∀ {s : σ} {es : List ε}, sys.EnabledAll s es →
    sys.Run s es (es.foldl sys.step s)
  | s, [], _ => Run.nil s
  | _, _ :: _, h => Run.cons h.1 (Run.of_enabledAll h.2)

/-- Where nothing is ever disabled, any events make a run. -/
theorem Run.of_forall_enabled (h : ∀ s e, sys.enabled s e) :
    ∀ (s : σ) (es : List ε), sys.Run s es (es.foldl sys.step s)
  | s, [] => Run.nil s
  | s, e :: es => Run.cons (h s e) (Run.of_forall_enabled h (sys.step s e) es)

/-! ## Invariants -/

/-- What every step keeps, every run keeps. -/
theorem Run.invariant {I : σ → Prop} (hstep : ∀ s e, I s → sys.enabled s e → I (sys.step s e))
    (h : sys.Run s es t) : I s → I t := by
  induction h with
  | nil => exact id
  | cons he _ ih => exact fun hs => ih (hstep _ _ hs he)

/-- **The invariant rule.** -/
theorem Reachable.invariant {I : σ → Prop} (hinit : ∀ s, sys.init s → I s)
    (hstep : ∀ s e, I s → sys.enabled s e → I (sys.step s e)) (h : sys.Reachable t) : I t := by
  obtain ⟨s, es, hs, hr⟩ := h
  exact hr.invariant hstep (hinit s hs)

/-- A relation between the ends of a run, from reflexivity and one step. -/
theorem Run.relation {R : σ → σ → Prop} (hrefl : ∀ s, R s s)
    (htrans : ∀ s t u, R s t → R t u → R s u)
    (hstep : ∀ s e, sys.enabled s e → R s (sys.step s e)) (h : sys.Run s es t) : R s t := by
  induction h with
  | nil s => exact hrefl s
  | cons he _ ih => exact htrans _ _ _ (hstep _ _ he) ih

/-- Every state on the way has `I`, the first and the last one too. -/
def Throughout (sys : System σ ε) (I : σ → Prop) : σ → List ε → Prop
  | s, [] => I s
  | s, e :: es => I s ∧ Throughout sys I (sys.step s e) es

theorem Throughout.head {I : σ → Prop} (h : sys.Throughout I s es) : I s := by
  cases es with
  | nil => exact h
  | cons e es => exact h.1

theorem Throughout.last {I : σ → Prop} (h : sys.Throughout I s es) (hr : sys.Run s es t) : I t := by
  induction hr with
  | nil => exact h
  | cons _ _ ih => exact ih h.2

/-- The exact condition of `I` in runs that keep `J` as long as they meet it. -/
theorem Run.throughout_iff_of_kept {I J : σ → Prop} {ok : σ → ε → Prop}
    (hkeep : ∀ s e, J s → sys.enabled s e → ok s e → J (sys.step s e))
    (hstep : ∀ s e, J s → I s → sys.enabled s e → (I (sys.step s e) ↔ ok s e))
    (h : sys.Run s es t) (hJ : J s) (hs : I s) :
    sys.Throughout I s es ↔ (sys.restrict ok).Run s es t := by
  induction h with
  | nil s => exact ⟨fun _ => Run.nil s, fun _ => hs⟩
  | cons he _ ih =>
    have hiff := hstep _ _ hJ hs he
    constructor
    · rintro ⟨-, ht⟩
      have hok := hiff.mp ht.head
      exact Run.cons ⟨he, hok⟩ ((ih (hkeep _ _ hJ he hok) ht.head).mp ht)
    · intro hr
      cases hr with
      | cons hok hr' => exact ⟨hs, (ih (hkeep _ _ hJ he hok.2) (hiff.mpr hok.2)).mpr hr'⟩

/-- The exact condition of `I` in runs that keep `J` anyway. -/
theorem Run.throughout_iff_of_invariant {I J : σ → Prop} {ok : σ → ε → Prop}
    (hinv : ∀ s e, J s → sys.enabled s e → J (sys.step s e))
    (hstep : ∀ s e, J s → I s → sys.enabled s e → (I (sys.step s e) ↔ ok s e))
    (h : sys.Run s es t) (hJ : J s) (hs : I s) :
    sys.Throughout I s es ↔ (sys.restrict ok).Run s es t :=
  h.throughout_iff_of_kept (fun s e hJ he _ => hinv s e hJ he) hstep hJ hs

/-- **The exact condition of an invariant.** When a step keeps `I` just in case it meets `ok`,
a run keeps `I` throughout just in case all its steps meet `ok`. -/
theorem Run.throughout_iff {I : σ → Prop} {ok : σ → ε → Prop}
    (hstep : ∀ s e, I s → sys.enabled s e → (I (sys.step s e) ↔ ok s e))
    (h : sys.Run s es t) (hs : I s) : sys.Throughout I s es ↔ (sys.restrict ok).Run s es t :=
  have hstep' : ∀ s e, True → I s → sys.enabled s e → (I (sys.step s e) ↔ ok s e) :=
    fun s e _ => hstep s e
  h.throughout_iff_of_invariant (fun _ _ _ _ => trivial) hstep' trivial hs

/-- Where an invariant implies the condition of every step, a run meets it. -/
theorem Run.restrict_of_invariant {I : σ → Prop} {ok : σ → ε → Prop}
    (hstep : ∀ s e, I s → sys.enabled s e → ok s e ∧ I (sys.step s e)) (h : sys.Run s es t)
    (hs : I s) : (sys.restrict ok).Run s es t := by
  induction h with
  | nil s => exact Run.nil s
  | cons he _ ih =>
    obtain ⟨hok, hI⟩ := hstep _ _ hs he
    exact Run.cons ⟨he, hok⟩ (ih hI)

/-- Two conditions on steps that agree where an invariant holds, which either of them keeps, are
the same condition on runs. -/
theorem Run.restrict_congr {I : σ → Prop} {ok ok' : σ → ε → Prop}
    (hiff : ∀ s e, I s → sys.enabled s e → (ok s e ↔ ok' s e))
    (hkeep : ∀ s e, I s → sys.enabled s e → ok s e → I (sys.step s e)) (hs : I s) :
    (sys.restrict ok).Run s es t ↔ (sys.restrict ok').Run s es t := by
  constructor
  · intro h
    induction h with
    | nil s => exact Run.nil s
    | cons he _ ih =>
      exact Run.cons ⟨he.1, (hiff _ _ hs he.1).mp he.2⟩ (ih (hkeep _ _ hs he.1 he.2))
  · intro h
    induction h with
    | nil s => exact Run.nil s
    | cons he _ ih =>
      have hok := (hiff _ _ hs he.1).mpr he.2
      exact Run.cons ⟨he.1, hok⟩ (ih (hkeep _ _ hs he.1 hok))

/-! ## Laws of single steps -/

/-- Each step of a list of events, taken in its turn, has `P`. -/
def EachStep (sys : System σ ε) (P : σ → ε → Prop) : σ → List ε → Prop
  | _, [] => True
  | s, e :: es => P s e ∧ EachStep sys P (sys.step s e) es

/-- Two laws of a step that agree where an invariant holds are the same law of runs. -/
theorem Run.eachStep_congr {I : σ → Prop} {P Q : σ → ε → Prop}
    (hstep : ∀ s e, I s → sys.enabled s e → I (sys.step s e) ∧ (P s e ↔ Q s e))
    (h : sys.Run s es t) (hs : I s) : sys.EachStep P s es ↔ sys.EachStep Q s es := by
  induction h with
  | nil => exact Iff.rfl
  | cons he _ ih =>
    obtain ⟨hI, hiff⟩ := hstep _ _ hs he
    exact and_congr hiff (ih hI)

/-- An invariant holds all along a run. -/
theorem Run.throughout_of_invariant {I : σ → Prop}
    (hstep : ∀ s e, I s → sys.enabled s e → I (sys.step s e)) (h : sys.Run s es t) (hs : I s) :
    sys.Throughout I s es := by
  induction h with
  | nil => exact hs
  | cons he _ ih => exact ⟨hs, ih (hstep _ _ hs he)⟩

/-! ## Histories -/

section Emitted

variable {α : Type*} {out : σ → ε → List α} {xs : List α}

/-- What the steps of a run emit, in their order. -/
def emitted (sys : System σ ε) (out : σ → ε → List α) : σ → List ε → List α
  | _, [] => []
  | s, e :: es => out s e ++ emitted sys out (sys.step s e) es

/-- What every step keeps of a state and its history, every run keeps. -/
theorem Run.invariant_emitted {I : σ → List α → Prop}
    (hstep : ∀ s e xs, I s xs → sys.enabled s e → I (sys.step s e) (xs ++ out s e))
    (h : sys.Run s es t) (hs : I s xs) : I t (xs ++ sys.emitted out s es) := by
  induction h generalizing xs with
  | nil => simpa [emitted] using hs
  | cons he _ ih =>
    rw [emitted, ← List.append_assoc]
    exact ih (hstep _ _ _ hs he)

/-- Where each step makes progress or emits something, a run has no more steps than it makes
progress and emits. -/
theorem Run.length_le {I : σ → Prop} (progress : σ → Nat)
    (hstep : ∀ s e, I s → sys.enabled s e → I (sys.step s e))
    (hprogress : ∀ s e, I s → sys.enabled s e →
      progress s < progress (sys.step s e) + (out s e).length)
    (h : sys.Run s es t) (hs : I s) :
    progress s + es.length ≤ progress t + (sys.emitted out s es).length := by
  induction h with
  | nil s => exact Nat.le_refl _
  | @cons s e es t he _ ih =>
    have hone := hprogress s e hs he
    have hrest := ih (hstep s e hs he)
    rw [emitted, List.length_append, List.length_cons]
    omega

end Emitted

/-- What every step keeps of a state and the events before it, every run keeps. -/
theorem Run.invariant_events {I : σ → List ε → Prop}
    (hstep : ∀ s es e, I s es → sys.enabled s e → I (sys.step s e) (es ++ [e]))
    (h : sys.Run s es t) (hs : I s []) : I t es := by
  have hrun : I t ([] ++ sys.emitted (fun _ e => [e]) s es) :=
    h.invariant_emitted (fun s e es => hstep s es e) hs
  have hemitted : ∀ s es, sys.emitted (fun _ e => [e]) s es = es := by
    intro s es
    induction es generalizing s with
    | nil => rfl
    | cons e es ih => rw [emitted, ih, List.singleton_append]
  rwa [List.nil_append, hemitted] at hrun

/-! ## Simulation -/

/-- **The simulation rule.** Each step of `sys` from a state in `I` is a run of `abs` between
the images of its ends, so every run of `sys` is. -/
theorem Run.simulates {τ δ : Type*} {abs : System τ δ} {I : σ → Prop} (f : σ → τ)
    (hstep : ∀ s e, I s → sys.enabled s e →
      I (sys.step s e) ∧ ∃ ds, abs.Run (f s) ds (f (sys.step s e)))
    (h : sys.Run s es t) (hs : I s) : I t ∧ ∃ ds, abs.Run (f s) ds (f t) := by
  induction h with
  | nil s => exact ⟨hs, [], Run.nil _⟩
  | cons he _ ih =>
    obtain ⟨hI, ds, hd⟩ := hstep _ _ hs he
    obtain ⟨hI', ds', hd'⟩ := ih hI
    exact ⟨hI', ds ++ ds', hd.append hd'⟩

end System

end Infra
