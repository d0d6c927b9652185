import Mathlib.Logic.Function.Basic
import OpenHarmonyMac.Infra.Transition

/-!
# Families of independent systems

Components that share nothing, each with its own system, interleaved in any order.

* `System.family` — the components as one system
* `System.Run.component` — what a run of the family is for one component
-/

namespace Infra

namespace System

variable {ι σ ε : Type*} [DecidableEq ι]

/-- The systems `sys i`, of which a step moves one. -/
def family (sys : ι → System σ ε) : System (ι → σ) (ι × ε) where
  init f := ∀ i, (sys i).init (f i)
  enabled f e := (sys e.1).enabled (f e.1) e.2
  step f e := Function.update f e.1 ((sys e.1).step (f e.1) e.2)

variable {sys : ι → System σ ε} {f g : ι → σ} {es : List (ι × ε)}

/-- The events of one component. -/
def eventsOf (i : ι) (es : List (ι × ε)) : List ε :=
  (es.filter (·.1 = i)).map Prod.snd

/-- **A run of the family is a run of each component.** -/
theorem Run.component (i : ι) (h : (family sys).Run f es g) :
    (sys i).Run (f i) (eventsOf i es) (g i) := by
  induction h with
  | nil f => exact Run.nil _
  | @cons f e es g he _ ih =>
    by_cases hi : e.1 = i
    · subst hi
      have hstep : (family sys).step f e e.1 = (sys e.1).step (f e.1) e.2 :=
        Function.update_self ..
      rw [hstep] at ih
      rw [eventsOf, List.filter_cons_of_pos (by simp), List.map_cons]
      exact Run.cons he ih
    · have hstep : (family sys).step f e i = f i := Function.update_of_ne (Ne.symm hi) ..
      rw [hstep] at ih
      rwa [eventsOf, List.filter_cons_of_neg (by simpa using hi)]

/-- A run of one component is a run of the family in which the others rest. -/
theorem Run.lift {i : ι} {s t : σ} {es : List ε} (h : (sys i).Run s es t) :
    ∀ {f : ι → σ}, f i = s →
      (family sys).Run f (es.map fun e => (i, e)) (Function.update f i t) := by
  induction h with
  | nil s =>
    rintro f rfl
    rw [Function.update_eq_self]
    exact Run.nil f
  | cons he _ ih =>
    rintro f rfl
    have hrest := @ih (Function.update f i _) (Function.update_self ..)
    rw [Function.update_idem] at hrest
    exact Run.cons he hrest

/-- A condition on the steps of each component. -/
theorem Run.component_restrict {ok : ι → σ → ε → Prop} (i : ι)
    (h : ((family sys).restrict fun f e => ok e.1 (f e.1) e.2).Run f es g) :
    ((sys i).restrict (ok i)).Run (f i) (eventsOf i es) (g i) :=
  have h' : (family fun i => (sys i).restrict (ok i)).Run f es g := h
  h'.component i

end System

end Infra
