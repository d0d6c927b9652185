import Mathlib.Data.List.Basic
import Mathlib.Data.List.Nodup
import OpenHarmonyMac.Infra.Transition

/-!
# A ledger of requests and answers

What a server that answers requests is for, without how it finds the answers. Clients connect
and disconnect, a request is accepted from a client, an accepted request is answered, and the
pending requests of a client that disconnects are dropped.

* `Ledger.Reachable.sound` — what holds in every reachable ledger
* `Ledger.Sound.length_eq_one` — a settled request of a connected client has one answer
* `Ledger.Run.answersTo_eq` — a request that was answered is not answered again
-/

namespace Infra

/-- An answer that was sent. -/
structure Answer (κ ρ : Type*) where
  client : κ
  request : ρ
  /-- The client was connected when the answer was sent. -/
  toOpen : Bool

structure Ledger (κ ρ : Type*) where
  opened : List κ := []
  accepted : List (κ × ρ) := []
  pending : List (κ × ρ) := []
  answers : List (Answer κ ρ) := []

namespace Ledger

variable {κ ρ : Type*}

/-- The law of the ledger. -/
structure Sound (l : Ledger κ ρ) : Prop where
  accepted_nodup : (l.accepted.map Prod.snd).Nodup
  pending_accepted : ∀ p ∈ l.pending, p ∈ l.accepted
  pending_opened : ∀ p ∈ l.pending, p.1 ∈ l.opened
  answers_accepted : ∀ a ∈ l.answers, (a.client, a.request) ∈ l.accepted
  answers_nodup : (l.answers.map (·.request)).Nodup
  answers_settled : ∀ a ∈ l.answers, ∀ p ∈ l.pending, p.2 ≠ a.request
  answers_toOpen : ∀ a ∈ l.answers, a.toOpen = true
  settled_answered : ∀ p ∈ l.accepted, p.1 ∈ l.opened → p ∉ l.pending →
    ∃ a ∈ l.answers, a.request = p.2

theorem Sound.empty : Sound ({} : Ledger κ ρ) := by
  constructor <;> simp

inductive Action (κ ρ : Type*)
  | connect (c : κ)
  | accept (c : κ) (r : ρ)
  | answer (c : κ) (r : ρ)
  | disconnect (c : κ)

variable [DecidableEq κ] [DecidableEq ρ]

def Enabled (l : Ledger κ ρ) : Action κ ρ → Prop
  | .connect c => c ∉ l.opened ∧ ∀ p ∈ l.accepted, p.1 ≠ c
  | .accept c r => c ∈ l.opened ∧ ∀ p ∈ l.accepted, p.2 ≠ r
  | .answer c r => (c, r) ∈ l.pending
  | .disconnect _ => True

def act (l : Ledger κ ρ) : Action κ ρ → Ledger κ ρ
  | .connect c => { l with opened := l.opened ++ [c] }
  | .accept c r =>
    { l with accepted := (c, r) :: l.accepted, pending := l.pending ++ [(c, r)] }
  | .answer c r =>
    { l with
      pending := l.pending.filter (fun p => p.2 ≠ r)
      answers := { client := c, request := r, toOpen := decide (c ∈ l.opened) } :: l.answers }
  | .disconnect c =>
    { l with
      opened := l.opened.filter (fun d => d ≠ c)
      pending := l.pending.filter (fun p => p.1 ≠ c) }

variable (κ ρ) in
def system : System (Ledger κ ρ) (Action κ ρ) where
  init l := l = {}
  enabled := Enabled
  step := act

variable {l l' : Ledger κ ρ}

theorem Sound.connect (h : Sound l) (c : κ) (hc : ∀ p ∈ l.accepted, p.1 ≠ c) :
    Sound (l.act (.connect c)) where
  accepted_nodup := h.accepted_nodup
  pending_accepted := h.pending_accepted
  pending_opened p hp := List.mem_append_left _ (h.pending_opened p hp)
  answers_accepted := h.answers_accepted
  answers_nodup := h.answers_nodup
  answers_settled := h.answers_settled
  answers_toOpen := h.answers_toOpen
  settled_answered p hp ho hn := by
    rcases List.mem_append.mp ho with ho | ho
    · exact h.settled_answered p hp ho hn
    · exact absurd (List.mem_singleton.mp ho) (hc p hp)

theorem Sound.accept (h : Sound l) {c : κ} {r : ρ} (hc : c ∈ l.opened)
    (hr : ∀ p ∈ l.accepted, p.2 ≠ r) : Sound (l.act (.accept c r)) where
  accepted_nodup := by
    simp only [act, List.map_cons, List.nodup_cons, List.mem_map, not_exists, not_and]
    exact ⟨fun p hp => hr p hp, h.accepted_nodup⟩
  pending_accepted p hp := by
    rcases List.mem_append.mp hp with hp | hp
    · exact List.mem_cons_of_mem _ (h.pending_accepted p hp)
    · rw [List.mem_singleton.mp hp]
      exact List.mem_cons_self
  pending_opened p hp := by
    rcases List.mem_append.mp hp with hp | hp
    · exact h.pending_opened p hp
    · rw [List.mem_singleton.mp hp]
      exact hc
  answers_accepted a ha := List.mem_cons_of_mem _ (h.answers_accepted a ha)
  answers_nodup := h.answers_nodup
  answers_settled a ha p hp := by
    rcases List.mem_append.mp hp with hp | hp
    · exact h.answers_settled a ha p hp
    · rw [List.mem_singleton.mp hp]
      exact (hr _ (h.answers_accepted a ha)).symm
  answers_toOpen := h.answers_toOpen
  settled_answered p hp ho hn := by
    simp only [act, List.mem_append, not_or] at hn
    rcases List.mem_cons.mp hp with hp | hp
    · exact absurd (List.mem_singleton.mpr hp) hn.2
    · exact h.settled_answered p hp ho hn.1

theorem Sound.answer (h : Sound l) {c : κ} {r : ρ} (hp : (c, r) ∈ l.pending) :
    Sound (l.act (.answer c r)) where
  accepted_nodup := h.accepted_nodup
  pending_accepted p hp := h.pending_accepted p (List.mem_filter.mp hp).1
  pending_opened p hp := h.pending_opened p (List.mem_filter.mp hp).1
  answers_accepted a ha := by
    rcases List.mem_cons.mp ha with rfl | ha
    · exact h.pending_accepted _ hp
    · exact h.answers_accepted a ha
  answers_nodup := by
    simp only [act, List.map_cons, List.nodup_cons, List.mem_map, not_exists, not_and]
    exact ⟨fun a ha he => h.answers_settled a ha _ hp he.symm, h.answers_nodup⟩
  answers_settled a ha p hq := by
    obtain ⟨hq, hne⟩ := List.mem_filter.mp hq
    rcases List.mem_cons.mp ha with rfl | ha
    · exact of_decide_eq_true hne
    · exact h.answers_settled a ha p hq
  answers_toOpen a ha := by
    rcases List.mem_cons.mp ha with rfl | ha
    · exact decide_eq_true (h.pending_opened _ hp)
    · exact h.answers_toOpen a ha
  settled_answered p hq ho hn := by
    by_cases hr : p.2 = r
    · exact ⟨_, List.mem_cons_self, hr.symm⟩
    · have hn' : p ∉ l.pending := fun hm => hn (List.mem_filter.mpr ⟨hm, decide_eq_true hr⟩)
      obtain ⟨a, ha, he⟩ := h.settled_answered p hq ho hn'
      exact ⟨a, List.mem_cons_of_mem _ ha, he⟩

theorem Sound.disconnect (h : Sound l) (c : κ) : Sound (l.act (.disconnect c)) where
  accepted_nodup := h.accepted_nodup
  pending_accepted p hp := h.pending_accepted p (List.mem_filter.mp hp).1
  pending_opened p hp := by
    obtain ⟨hp, hne⟩ := List.mem_filter.mp hp
    exact List.mem_filter.mpr ⟨h.pending_opened p hp, hne⟩
  answers_accepted := h.answers_accepted
  answers_nodup := h.answers_nodup
  answers_settled a ha p hp := h.answers_settled a ha p (List.mem_filter.mp hp).1
  answers_toOpen := h.answers_toOpen
  settled_answered p hp ho hn := by
    obtain ⟨ho, hne⟩ := List.mem_filter.mp ho
    exact h.settled_answered p hp ho (fun hm => hn (List.mem_filter.mpr ⟨hm, hne⟩))

/-- One action keeps the law. -/
theorem Sound.act {a : Action κ ρ} (h : Sound l) (ha : Enabled l a) : Sound (l.act a) := by
  cases a with
  | connect c => exact h.connect c ha.2
  | accept c r => exact h.accept ha.1 ha.2
  | answer c r => exact h.answer ha
  | disconnect c => exact h.disconnect c

theorem Sound.run {as : List (Action κ ρ)} (hr : (system κ ρ).Run l as l') (h : Sound l) :
    Sound l' :=
  hr.invariant (fun _ _ hs he => hs.act he) h

/-- **Every reachable ledger keeps the law.** -/
theorem Reachable.sound (h : (system κ ρ).Reachable l) : Sound l := by
  obtain ⟨l₀, as, rfl, hr⟩ := h
  exact Sound.empty.run hr

/-! ## Counting answers -/

/-- The answers given to a request. -/
def answersTo (l : Ledger κ ρ) (r : ρ) : List (Answer κ ρ) :=
  l.answers.filter (fun a => a.request = r)

omit [DecidableEq κ] in
theorem Sound.length_le_one (h : Sound l) (r : ρ) : (l.answersTo r).length ≤ 1 := by
  have hc := List.nodup_iff_count_le_one.mp h.answers_nodup r
  rwa [List.count, List.countP_map, List.countP_eq_length_filter] at hc

omit [DecidableEq κ] in
/-- A request that is not pending, of a client that is connected, has one answer. -/
theorem Sound.length_eq_one (h : Sound l) {p : κ × ρ} (hp : p ∈ l.accepted)
    (ho : p.1 ∈ l.opened) (hn : p ∉ l.pending) : (l.answersTo p.2).length = 1 := by
  obtain ⟨a, ha, he⟩ := h.settled_answered p hp ho hn
  have hpos : 0 < (l.answersTo p.2).length :=
    List.length_pos_of_mem (List.mem_filter.mpr ⟨ha, decide_eq_true he⟩)
  have := h.length_le_one p.2
  omega

/-- Answers are only ever added. -/
theorem Run.answers_suffix {as : List (Action κ ρ)} (hr : (system κ ρ).Run l as l') :
    l.answers <:+ l'.answers := by
  refine hr.relation (R := fun l l' => l.answers <:+ l'.answers) ?_ ?_ ?_
  · intro l
    exact List.suffix_refl _
  · intro l₁ l₂ l₃ h₁ h₂
    exact h₁.trans h₂
  · intro l a _
    cases a with
    | answer c r => exact List.suffix_cons _ _
    | _ => exact List.suffix_refl _

/-- **A request that was answered is not answered again.** -/
theorem Run.answersTo_eq {as : List (Action κ ρ)} (hr : (system κ ρ).Run l as l') (h : Sound l)
    {a : Answer κ ρ} (ha : a ∈ l.answers) : l'.answersTo a.request = l.answersTo a.request := by
  have hs : l.answersTo a.request <:+ l'.answersTo a.request := (Run.answers_suffix hr).filter _
  have hpos : 0 < (l.answersTo a.request).length :=
    List.length_pos_of_mem (List.mem_filter.mpr ⟨ha, decide_eq_true rfl⟩)
  have hle := (h.run hr).length_le_one a.request
  exact (hs.eq_of_length_le (by omega)).symm

end Ledger

end Infra
