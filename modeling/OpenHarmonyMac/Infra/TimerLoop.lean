import Mathlib.Tactic.Common

/-!
# Loops of one-shot timers

What a program may rely on in a loop that runs one-shot timers, and a loop that has it.

* `TimerLoop` — the operations on the timers of a loop and their laws
* `TimerLoop.Framed` — each operation makes or ends no other timer than its own
* `TimerLoop.KeepsHandlers` — nor does it change the handler of another one
* `TimerLoop.slots` — a loop that numbers its timers
-/

namespace Infra

/-- A loop of one-shot timers, each with a handler from `η`. A timer is made without being
armed. It is armed by `start` until it expires or is stopped, and no longer exists once it is
stopped. -/
structure TimerLoop (η : Type) where
  Loop : Type
  Handle : Type
  empty : Loop
  /-- The handler of a timer that exists. -/
  handler : Loop → Handle → Option η
  armed : Loop → Handle → Bool
  create : Loop → η → Loop × Handle
  start : Loop → Handle → Nat → Loop
  stop : Loop → Handle → Loop
  /-- The time of the timer is over. -/
  expire : Loop → Handle → Loop
  armed_empty : ∀ h, armed empty h = false
  handler_of_armed : ∀ l h, armed l h = true → (handler l h).isSome
  handler_create : ∀ l p, handler (create l p).1 (create l p).2 = some p
  armed_create : ∀ l p h, armed (create l p).1 h = armed l h
  armed_start : ∀ l h t, (handler l h).isSome → armed (start l h t) h = true
  armed_start_ne : ∀ l h t h', h' ≠ h → armed (start l h t) h' = armed l h'
  handler_stop : ∀ l h, handler (stop l h) h = none
  armed_stop_ne : ∀ l h h', h' ≠ h → armed (stop l h) h' = armed l h'
  armed_expire : ∀ l h, armed (expire l h) h = false
  armed_expire_ne : ∀ l h h', h' ≠ h → armed (expire l h) h' = armed l h'

namespace TimerLoop

variable {η : Type} (tl : TimerLoop η) {l : tl.Loop} {h h' : tl.Handle}

/-- A stopped timer does not expire. -/
theorem armed_stop : tl.armed (tl.stop l h) h = false := by
  by_contra ha
  have hs := tl.handler_of_armed _ _ (Bool.not_eq_false _ ▸ ha)
  rw [tl.handler_stop] at hs
  cases hs

/-- A timer that is armed after a stop is another timer, and was armed before. -/
theorem armed_of_armed_stop (ha : tl.armed (tl.stop l h) h' = true) :
    h' ≠ h ∧ tl.armed l h' = true := by
  have hne : h' ≠ h := by
    rintro rfl
    rw [tl.armed_stop] at ha
    cases ha
  exact ⟨hne, by rwa [tl.armed_stop_ne _ _ _ hne] at ha⟩

theorem armed_of_armed_expire (ha : tl.armed (tl.expire l h) h' = true) :
    h' ≠ h ∧ tl.armed l h' = true := by
  have hne : h' ≠ h := by
    rintro rfl
    rw [tl.armed_expire] at ha
    cases ha
  exact ⟨hne, by rwa [tl.armed_expire_ne _ _ _ hne] at ha⟩

/-- In a loop with no armed timer, the one that is started is the only one. -/
theorem armed_start_iff (hl : ∀ h, tl.armed l h = false) (hh : (tl.handler l h).isSome) (t : Nat) :
    tl.armed (tl.start l h t) h' = true ↔ h' = h := by
  constructor
  · intro ha
    by_contra hne
    rw [tl.armed_start_ne _ _ _ _ hne, hl] at ha
    cases ha
  · rintro rfl
    exact tl.armed_start _ _ _ hh

/-- The timer exists: it was created and has not been stopped. -/
def Exists (l : tl.Loop) (h : tl.Handle) : Prop := (tl.handler l h).isSome = true

instance (l : tl.Loop) (h : tl.Handle) : Decidable (tl.Exists l h) :=
  inferInstanceAs (Decidable (_ = true))

/-- The operations say of no other timer whether it exists, and a new timer gets the handle of
none that exists. -/
structure Framed : Prop where
  create_fresh : ∀ l p, ¬ tl.Exists l (tl.create l p).2
  create_ne : ∀ l p h, h ≠ (tl.create l p).2 → (tl.Exists (tl.create l p).1 h ↔ tl.Exists l h)
  start : ∀ l h t h', tl.Exists (tl.start l h t) h' ↔ tl.Exists l h'
  stop_ne : ∀ l h h', h' ≠ h → (tl.Exists (tl.stop l h) h' ↔ tl.Exists l h')
  expire_ne : ∀ l h h', h' ≠ h → (tl.Exists (tl.expire l h) h' ↔ tl.Exists l h')

theorem not_exists_stop : ¬ tl.Exists (tl.stop l h) h := by
  simp [Exists, tl.handler_stop]

theorem exists_create (p : η) : tl.Exists (tl.create l p).1 (tl.create l p).2 := by
  simp [Exists, tl.handler_create]

theorem exists_of_armed (ha : tl.armed l h = true) : tl.Exists l h := tl.handler_of_armed l h ha

variable {tl}

/-- The timers after a new one is made. -/
theorem Framed.exists_create_iff (hf : tl.Framed) (p : η) :
    tl.Exists (tl.create l p).1 h ↔ h = (tl.create l p).2 ∨ tl.Exists l h := by
  by_cases hh : h = (tl.create l p).2
  · subst hh
    simp [tl.exists_create]
  · rw [hf.create_ne l p h hh]
    simp [hh]

/-- The timers after one is stopped. -/
theorem Framed.exists_stop_iff (hf : tl.Framed) :
    tl.Exists (tl.stop l h) h' ↔ h' ≠ h ∧ tl.Exists l h' := by
  by_cases hh : h' = h
  · subst hh
    simp [tl.not_exists_stop]
  · rw [hf.stop_ne l h h' hh]
    simp [hh]

/-- The operations leave the handlers of the other timers alone, and a new timer gets the handle of
none that exists. -/
structure KeepsHandlers (tl : TimerLoop η) : Prop where
  create_fresh : ∀ l p, tl.handler l (tl.create l p).2 = none
  create_ne : ∀ l p h, h ≠ (tl.create l p).2 → tl.handler (tl.create l p).1 h = tl.handler l h
  start : ∀ l h t h', tl.handler (tl.start l h t) h' = tl.handler l h'
  stop_ne : ∀ l h h', h' ≠ h → tl.handler (tl.stop l h) h' = tl.handler l h'
  expire_ne : ∀ l h h', h' ≠ h → tl.handler (tl.expire l h) h' = tl.handler l h'

/-- Then they keep the other timers, too. -/
theorem KeepsHandlers.framed (hk : tl.KeepsHandlers) : tl.Framed where
  create_fresh l p := by simp [Exists, hk.create_fresh]
  create_ne l p h hne := by simp [Exists, hk.create_ne l p h hne]
  start l h t h' := by simp [Exists, hk.start]
  stop_ne l h h' hne := by simp [Exists, hk.stop_ne l h h' hne]
  expire_ne l h h' hne := by simp [Exists, hk.expire_ne l h h' hne]

end TimerLoop

/-! ## A loop that numbers its timers -/

/-- A timer of `TimerLoop.slots`: its handler and whether it is armed. -/
abbrev TimerSlot (η : Type) := Option (η × Bool)

namespace TimerSlot

variable {η : Type}

/-- The slots with the armed bit of one timer set to `b`. -/
def setArmed (l : List (TimerSlot η)) (h : Nat) (b : Bool) : List (TimerSlot η) :=
  l.modify h (Option.map fun s => (s.1, b))

def handler (l : List (TimerSlot η)) (h : Nat) : Option η := (l[h]?.getD none).map Prod.fst

def armed (l : List (TimerSlot η)) (h : Nat) : Bool := (l[h]?.getD none).any Prod.snd

theorem armed_setArmed_self {l : List (TimerSlot η)} {h : Nat} {b : Bool} :
    armed (setArmed l h b) h = ((handler l h).isSome && b) := by
  unfold armed setArmed handler
  rw [List.getElem?_modify_eq]
  cases l[h]? with
  | none => rfl
  | some s => cases s <;> simp

theorem armed_setArmed_ne {l : List (TimerSlot η)} {h h' : Nat} {b : Bool} (hne : h' ≠ h) :
    armed (setArmed l h b) h' = armed l h' := by
  unfold armed setArmed
  rw [List.getElem?_modify_ne _ _ (Ne.symm hne)]

theorem handler_setArmed {l : List (TimerSlot η)} {h h' : Nat} {b : Bool} :
    handler (setArmed l h b) h' = handler l h' := by
  unfold handler setArmed
  rw [List.getElem?_modify]
  cases hl : l[h']? with
  | none => simp
  | some s => by_cases hh : h = h' <;> cases s <;> simp [hh]

/-- The next timer is the first that does not exist. -/
theorem handler_length (l : List (TimerSlot η)) : handler l l.length = none := by
  unfold handler
  rw [List.getElem?_eq_none (Nat.le_refl _)]
  rfl

theorem handler_append_ne {l : List (TimerSlot η)} {p : η} {h : Nat} (hne : h ≠ l.length) :
    handler (l ++ [some (p, false)]) h = handler l h := by
  unfold handler
  rcases Nat.lt_or_gt_of_ne hne with hlt | hgt
  · rw [List.getElem?_append_left hlt]
  · rw [List.getElem?_eq_none (by simp; omega), List.getElem?_eq_none (Nat.le_of_lt hgt)]

theorem handler_set_ne {l : List (TimerSlot η)} {h h' : Nat} (hne : h' ≠ h) :
    handler (l.set h none) h' = handler l h' := by
  unfold handler
  rw [List.getElem?_set_ne (Ne.symm hne)]

theorem armed_append {l : List (TimerSlot η)} {p : η} {h : Nat} :
    armed (l ++ [some (p, false)]) h = armed l h := by
  unfold armed
  rcases Nat.lt_trichotomy h l.length with hlt | rfl | hgt
  · rw [List.getElem?_append_left hlt]
  · simp
  · rw [List.getElem?_append_right (Nat.le_of_lt hgt), List.getElem?_eq_none (Nat.le_of_lt hgt),
      List.getElem?_eq_none (by simp; omega)]

end TimerSlot

/-- The timers are numbered in the order they are made. -/
def TimerLoop.slots (η : Type) : TimerLoop η where
  Loop := List (TimerSlot η)
  Handle := Nat
  empty := []
  handler := TimerSlot.handler
  armed := TimerSlot.armed
  create l p := (l ++ [some (p, false)], l.length)
  start l h _ := TimerSlot.setArmed l h true
  stop l h := l.set h none
  expire l h := TimerSlot.setArmed l h false
  armed_empty _ := by simp [TimerSlot.armed]
  handler_of_armed l h ha := by
    unfold TimerSlot.armed at ha
    unfold TimerSlot.handler
    cases hs : l[h]?.getD none with
    | none => simp [hs] at ha
    | some s => rfl
  handler_create l p := by simp [TimerSlot.handler]
  armed_create _ _ _ := TimerSlot.armed_append
  armed_start l h _ hh := by rw [TimerSlot.armed_setArmed_self, hh]; rfl
  armed_start_ne _ _ _ _ hne := TimerSlot.armed_setArmed_ne hne
  handler_stop l h := by
    unfold TimerSlot.handler
    rcases Nat.lt_or_ge h l.length with hlt | hge
    · simp [hlt]
    · rw [List.getElem?_eq_none (by simpa using hge)]
      rfl
  armed_stop_ne l h h' hne := by
    unfold TimerSlot.armed
    rw [List.getElem?_set_ne hne.symm]
  armed_expire l h := by rw [TimerSlot.armed_setArmed_self, Bool.and_false]
  armed_expire_ne _ _ _ hne := TimerSlot.armed_setArmed_ne hne

theorem TimerLoop.slots_keepsHandlers (η : Type) : (TimerLoop.slots η).KeepsHandlers where
  create_fresh l _ := TimerSlot.handler_length l
  create_ne _ _ _ hne := TimerSlot.handler_append_ne hne
  start _ _ _ _ := TimerSlot.handler_setArmed
  stop_ne _ _ _ hne := TimerSlot.handler_set_ne hne
  expire_ne _ _ _ _ := TimerSlot.handler_setArmed

theorem TimerLoop.slots_framed (η : Type) : (TimerLoop.slots η).Framed :=
  (TimerLoop.slots_keepsHandlers η).framed

end Infra
