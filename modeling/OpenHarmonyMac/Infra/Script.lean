import OpenHarmonyMac.Infra.Pass

/-!
# Scripts of calls

A script makes calls on the system one after the other. What a call answers may depend on all calls
before it. Some calls are checked: when such a call fails, the script returns at once, with a value
that says so.

* `Script` — the scripts, as a monad
* `Script.Follows` — which calls a script makes, and that it comes to its end just in case those
  that it checks succeed; the rules follow the shape of the script
-/

namespace Infra

/-- From the calls made so far to the result, or the value returned early, and all calls then. -/
def Script (κ ρ α : Type) : Type := List κ → Except ρ α × List κ

variable {κ ρ α β : Type}

namespace Script

protected def bind (m : Script κ ρ α) (f : α → Script κ ρ β) : Script κ ρ β := fun past =>
  match m past with
  | (.ok a, calls) => f a calls
  | (.error r, calls) => (.error r, calls)

instance : Monad (Script κ ρ) where
  pure a past := (.ok a, past)
  bind := Script.bind

/-- A call whose answer nobody looks at. -/
def call (c : κ) : Script κ ρ Unit := fun past => (.ok (), past ++ [c])

/-- A call and its answer. -/
def ask (sys : List κ → κ → Int) (c : κ) : Script κ ρ Int := fun past =>
  (.ok (sys past c), past ++ [c])

/-- A call that has to succeed. -/
def check (sys : List κ → κ → Int) (c : κ) (failure : ρ) : Script κ ρ Unit := fun past =>
  (if sys past c = 0 then .ok () else .error failure, past ++ [c])

/-- An early return. -/
def leave (r : ρ) : Script κ ρ α := fun past => (.error r, past)

/-- A part of a script that is left out when `p` does not hold. -/
def doIf (p : Prop) [Decidable p] (m : Script κ ρ Unit) : Script κ ρ Unit :=
  if p then m else pure ()

def each (f : α → Script κ ρ Unit) : List α → Script κ ρ Unit
  | [] => pure ()
  | a :: as => do
    f a
    each f as

/-- The value returned, which is `r` at the end of the script, and all calls. -/
def returns (m : Script κ ρ Unit) (r : ρ) (past : List κ) : ρ × List κ :=
  match m past with
  | (.ok (), calls) => (r, calls)
  | (.error r, calls) => (r, calls)

variable {m : Script κ ρ α} {f : α → Script κ ρ β} {past calls : List κ} {a : α} {r : ρ}

@[simp] theorem pure_apply (a : α) (past : List κ) :
    (pure a : Script κ ρ α) past = (.ok a, past) := rfl

theorem bind_of_ok (h : m past = (.ok a, calls)) : (m >>= f) past = f a calls := by
  show (match m past with
    | (.ok a, calls) => f a calls
    | (.error r, calls) => (.error r, calls)) = _
  rw [h]

theorem bind_of_error (h : m past = (.error r, calls)) :
    (m >>= f) past = (.error r, calls) := by
  show (match m past with
    | (.ok a, calls) => f a calls
    | (.error r, calls) => (.error r, calls)) = _
  rw [h]

/-- A script that starts with a question goes on with the answer. -/
theorem ask_bind {sys : List κ → κ → Int} {c : κ} {f : Int → Script κ ρ β} :
    (ask sys c >>= f) past = f (sys past c) (past ++ [c]) := rfl

theorem call_bind {c : κ} {f : Unit → Script κ ρ β} :
    (call c >>= f) past = f () (past ++ [c]) := rfl

theorem pure_bind (a : α) (f : α → Script κ ρ β) : pure a >>= f = f a := rfl

theorem leave_bind (r : ρ) (f : α → Script κ ρ β) : leave r >>= f = leave r := rfl

theorem bind_assoc {γ : Type} (m : Script κ ρ α) (f : α → Script κ ρ β) (g : β → Script κ ρ γ) :
    m >>= f >>= g = m >>= fun a => f a >>= g := by
  funext past
  cases h : m past with
  | mk result calls =>
    cases result with
    | ok a =>
      rw [bind_of_ok h]
      show (match (m >>= f) past with
        | (.ok b, calls) => g b calls
        | (.error r, calls) => (.error r, calls)) = _
      rw [bind_of_ok h]
      rfl
    | error r => rw [bind_of_error h, bind_of_error (bind_of_error h)]

/-- A script called for its value: `r` lets the caller go on, anything else is the caller's own
early return. -/
def sub [DecidableEq ρ] (m : Script κ ρ Unit) (r : ρ) : Script κ ρ Unit := fun past =>
  let returned := m.returns r past
  (if returned.1 = r then .ok () else .error returned.1, returned.2)

/-! ## The calls of a script -/

/-- From any calls on, the script makes the calls `cs`, of which `act` gives the answers that are
looked at. If they all succeed, the script comes to its end. Otherwise it has made some first ones
of them and returns early, with a bad value. -/
def Follows (act : List κ → κ → Int) (bad : ρ → Prop) (m : Script κ ρ Unit)
    (cs : List κ → List κ) : Prop :=
  ∀ past, Succeeds act past (cs past) ∧ m past = (.ok (), past ++ cs past) ∨
    ¬ Succeeds act past (cs past) ∧
      ∃ r pre, bad r ∧ pre <+: cs past ∧ m past = (.error r, past ++ pre)

variable {act : List κ → κ → Int} {bad : ρ → Prop} {m n : Script κ ρ Unit}
  {cs ds : List κ → List κ}

theorem Follows.congr (h : Follows act bad m cs) (heq : ∀ past, cs past = ds past) :
    Follows act bad m ds := by
  rwa [← funext heq]

/-- A script that always comes to its end. -/
theorem Follows.of_ok (h : ∀ past, m past = (.ok (), past ++ cs past))
    (hact : ∀ past, Succeeds act past (cs past)) : Follows act bad m cs :=
  fun past => Or.inl ⟨hact past, h past⟩

theorem Follows.pure : Follows act bad (pure () : Script κ ρ Unit) fun _ => [] :=
  Follows.of_ok (fun past => by simp) fun _ => succeeds_nil

theorem Follows.call {c : κ} (h : ∀ past, act past c = 0) :
    Follows act bad (call c : Script κ ρ Unit) fun _ => [c] :=
  Follows.of_ok (fun _ => rfl) fun past => succeeds_singleton.mpr (h past)

theorem Follows.check {sys : List κ → κ → Int} {c : κ} (h : ∀ past, act past c = sys past c)
    (hr : bad r) : Follows act bad (check sys c r) fun _ => [c] := by
  intro past
  rw [succeeds_singleton, h]
  unfold Script.check
  by_cases hc : sys past c = 0
  · exact Or.inl ⟨hc, by rw [if_pos hc]⟩
  · exact Or.inr ⟨hc, r, [c], hr, List.prefix_refl _, by rw [if_neg hc]⟩

/-- **Sequence.** -/
theorem Follows.bind (hm : Follows act bad m cs) (hn : Follows act bad n ds) :
    Follows act bad (m >>= fun _ => n) fun past => cs past ++ ds (past ++ cs past) := by
  intro past
  rcases hm past with ⟨hcs, heq⟩ | ⟨hcs, r, pre, hr, hpre, heq⟩
  · rw [bind_of_ok heq, succeeds_append, ← List.append_assoc]
    rcases hn (past ++ cs past) with ⟨hds, heq'⟩ | ⟨hds, r, pre, hr, hpre, heq'⟩
    · exact Or.inl ⟨⟨hcs, hds⟩, heq'⟩
    · refine Or.inr ⟨fun h => hds h.2, r, cs past ++ pre, hr, ?_, ?_⟩
      · exact (List.prefix_append_right_inj _).mpr hpre
      · rw [heq', List.append_assoc]
  · refine Or.inr ⟨fun h => hcs (succeeds_append.mp h).1, r, pre, hr, ?_, bind_of_error heq⟩
    exact hpre.trans (List.prefix_append _ _)

theorem Follows.ite {p : Prop} [Decidable p] (hm : p → Follows act bad m cs)
    (hn : ¬ p → Follows act bad n ds) :
    Follows act bad (if p then m else n) fun past => if p then cs past else ds past := by
  split
  · next hp => exact hm hp
  · next hp => exact hn hp

theorem Follows.doIf {p : Prop} [Decidable p] (hm : p → Follows act bad m cs) :
    Follows act bad (doIf p m) fun past => if p then cs past else [] :=
  Follows.ite hm fun _ => Follows.pure

/-- **The rule for loops** whose calls do not depend on what has happened. -/
theorem Follows.each {f : α → Script κ ρ Unit} {g : α → List κ} :
    ∀ (as : List α), (∀ a ∈ as, Follows act bad (f a) fun _ => g a) →
      Follows act bad (each f as) fun _ => as.flatMap g
  | [], _ => Follows.pure
  | a :: as, h =>
    (h a List.mem_cons_self).bind (Follows.each as fun b hb => h b (List.mem_cons_of_mem _ hb))

/-- A script that never comes to its end. -/
def Stops (bad : ρ → Prop) (m : Script κ ρ α) : Prop :=
  ∀ past, ∃ r calls, bad r ∧ m past = (.error r, calls)

theorem Stops.bind {m : Script κ ρ α} (h : Stops bad m) (f : α → Script κ ρ β) :
    Stops bad (m >>= f) := by
  intro past
  obtain ⟨r, calls, hr, heq⟩ := h past
  exact ⟨r, calls, hr, bind_of_error heq⟩

theorem Follows.bind_stops {n : Script κ ρ α} (hm : Follows act bad m cs) (hn : Stops bad n) :
    Stops bad (m >>= fun _ => n) := by
  intro past
  rcases hm past with ⟨-, heq⟩ | ⟨-, r, pre, hr, -, heq⟩
  · rw [bind_of_ok heq]
    exact hn _
  · exact ⟨r, _, hr, bind_of_error heq⟩

/-! ## What a script never calls -/

/-- Each call of the script has `P`, wherever it ends. -/
def Only (P : κ → Prop) (m : Script κ ρ α) : Prop :=
  ∀ past, ∃ new, (m past).2 = past ++ new ∧ ∀ c ∈ new, P c

variable {P : κ → Prop} {c : κ}

theorem Only.pure (a : α) : Only P (pure a : Script κ ρ α) :=
  fun past => ⟨[], (List.append_nil past).symm, by simp⟩

theorem Only.leave (r : ρ) : Only P (leave r : Script κ ρ α) :=
  fun past => ⟨[], (List.append_nil past).symm, by simp⟩

theorem Only.call (h : P c) : Only P (call c : Script κ ρ Unit) :=
  fun _ => ⟨[c], rfl, List.forall_mem_singleton.mpr h⟩

theorem Only.ask {sys : List κ → κ → Int} (h : P c) : Only P (ask sys c : Script κ ρ Int) :=
  fun _ => ⟨[c], rfl, List.forall_mem_singleton.mpr h⟩

theorem Only.check {sys : List κ → κ → Int} (h : P c) : Only P (check sys c r : Script κ ρ Unit) :=
  fun _ => ⟨[c], rfl, List.forall_mem_singleton.mpr h⟩

theorem Only.bind {m : Script κ ρ α} {f : α → Script κ ρ β} (hm : Only P m)
    (hf : ∀ a, Only P (f a)) : Only P (m >>= f) := by
  intro past
  obtain ⟨new, hnew, hP⟩ := hm past
  cases h : m past with
  | mk result calls =>
    rw [h] at hnew
    dsimp only at hnew
    cases result with
    | ok a =>
      obtain ⟨new', hnew', hP'⟩ := hf a calls
      rw [bind_of_ok h, hnew', hnew, List.append_assoc]
      exact ⟨new ++ new', rfl, List.forall_mem_append.mpr ⟨hP, hP'⟩⟩
    | error r =>
      rw [bind_of_error h]
      exact ⟨new, hnew, hP⟩

theorem Only.ite {p : Prop} [Decidable p] {m n : Script κ ρ α} (hm : p → Only P m)
    (hn : ¬ p → Only P n) : Only P (if p then m else n) := by
  split
  · next hp => exact hm hp
  · next hp => exact hn hp

theorem Only.doIf {p : Prop} [Decidable p] {m : Script κ ρ Unit} (hm : Only P m) :
    Only P (doIf p m) :=
  Only.ite (fun _ => hm) fun _ => Only.pure ()

theorem Only.each {f : α → Script κ ρ Unit} (h : ∀ a, Only P (f a)) :
    ∀ as : List α, Only P (each f as)
  | [] => Only.pure ()
  | a :: as => (h a).bind fun _ => Only.each h as

theorem returns_calls (m : Script κ ρ Unit) (r : ρ) (past : List κ) :
    (m.returns r past).2 = (m past).2 := by
  unfold returns
  split
  · next h => rw [h]
  · next h => rw [h]

end Script

end Infra
