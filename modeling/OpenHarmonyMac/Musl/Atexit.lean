import OpenHarmonyMac.Infra.Transition
import OpenHarmonyMac.Musl.AtexitList

/-!
# Running the exit handlers

`__cxa_finalize` runs the handlers of one library, and `__funcs_on_exit` all that are left. Both
give up the lock while a handler runs, and then handlers may be registered, by the handler or by
another thread.

* `ExitFuncs.next` — what the running call does up to the next point where others may come in
* `exitFuncs` — registering, and at most one running call
* `exitFuncs_accounts` — what becomes of the handlers, in every run up to the end of
  `__funcs_on_exit`
-/

namespace Musl.Atexit

open Infra

variable {φ α δ : Type}

/-- Where the running call is: it looks at a node under the lock, or a handler runs. -/
inductive Pc (δ : Type)
  | idle
  | finalize (dso : δ) (node : Option Nat)
  | finalizeCall (dso : δ) (node : Nat)
  | exit
  | exitCall
  deriving DecidableEq, Repr

/-- A handler of `__funcs_on_exit` runs. -/
def Pc.exiting : Pc δ → Bool
  | .exitCall => true
  | _ => false

/-- The list, and the running call. `exited` says that `__funcs_on_exit` has come to its end, and
`crashed` that `NULL` has been followed. -/
structure ExitFuncs (φ α δ : Type) where
  list : ExitList φ α δ
  pc : Pc δ := .idle
  exited : Bool := false
  crashed : Bool := false

inductive Act (φ α δ : Type)
  | cxaAtexit (h : Handler φ α δ) (malloc : Bool)
  | cxaFinalize (dso : δ)
  | exit
  | next
  deriving DecidableEq

namespace ExitFuncs

/-- `remove_node` in the loop of `__cxa_finalize`. -/
def remove (s : ExitFuncs φ α δ) (dso : δ) (node : Nat) : ExitFuncs φ α δ :=
  match s.list.removeNode node with
  | none => { s with crashed := true }
  | some (list, prev) => { s with list := list, pc := .finalize dso prev }

/-- The next step of `__cxa_finalize` or of `__funcs_on_exit`. -/
def next [DecidableEq δ] (s : ExitFuncs φ α δ) : ExitFuncs φ α δ :=
  match s.pc with
  | .finalize _ none => { s with pc := .idle }
  | .finalize dso (some node) =>
    if dso = (s.list.entry node).dso then
      match (s.list.entry node).func with
      | some _ => { s with pc := .finalizeCall dso node }
      | none => s.remove dso node
    else { s with pc := .finalize dso (s.list.prev node) }
  | .finalizeCall dso node => s.remove dso node
  | .exit =>
    match s.list.tail with
    | none => { s with pc := .idle, exited := true }
    | some tail =>
      let list := s.list.clearFunc tail
      match (s.list.entry tail).func with
      | some _ => { s with list := list, pc := .exitCall }
      | none => { s with list := { list with tail := list.prev tail } }
  | .exitCall =>
    match s.list.tail with
    | none => { s with crashed := true }
    | some tail => { s with list := { s.list with tail := s.list.prev tail }, pc := .exit }
  | .idle => s

def step [DecidableEq δ] (s : ExitFuncs φ α δ) : Act φ α δ → ExitFuncs φ α δ
  | .cxaAtexit h malloc =>
    match s.list.cxaAtexit malloc h with
    | none => { s with crashed := true }
    | some (list, _) => { s with list := list }
  | .cxaFinalize dso => { s with pc := .finalize dso s.list.tail }
  | .exit => { s with pc := .exit }
  | .next => s.next

variable (s : ExitFuncs φ α δ)

/-- The lock is free. -/
def Unlocked : Prop :=
  match s.pc with
  | .idle | .finalizeCall _ _ | .exitCall => True
  | _ => False

/-- A call is running. -/
def Running : Prop := s.pc ≠ .idle

instance : Decidable s.Unlocked := by
  unfold Unlocked
  split <;> infer_instance

instance [DecidableEq δ] : Decidable s.Running := inferInstanceAs (Decidable (s.pc ≠ .idle))

def Enabled : Act φ α δ → Prop
  | .cxaAtexit _ _ => s.Unlocked
  | .cxaFinalize _ | .exit => s.pc = .idle
  | .next => s.Running

instance [DecidableEq δ] : ∀ e, Decidable (s.Enabled e)
  | .cxaAtexit _ _ => inferInstanceAs (Decidable s.Unlocked)
  | .cxaFinalize _ => inferInstanceAs (Decidable (s.pc = .idle))
  | .exit => inferInstanceAs (Decidable (s.pc = .idle))
  | .next => inferInstanceAs (Decidable s.Running)

/-- The variables as the program starts with them, with any memory. -/
def Initial : Prop :=
  s.list.len = 0 ∧ s.list.capacity = 0 ∧ s.list.tail = none ∧ s.list.head = none ∧
    s.pc = .idle ∧ s.exited = false ∧ s.crashed = false

end ExitFuncs

/-- Registering at any time when the lock is free, and `__cxa_finalize` and `__funcs_on_exit` one
after another, also behind the end of the latter. No handler calls one of them in turn. -/
def exitFuncs [DecidableEq δ] : System (ExitFuncs φ α δ) (Act φ α δ) where
  init := ExitFuncs.Initial
  enabled s e := s.crashed = false ∧ s.Enabled e
  step := ExitFuncs.step

instance [DecidableEq δ] : ∀ (s : ExitFuncs φ α δ) e, Decidable (exitFuncs.enabled s e) :=
  fun s e => inferInstanceAs (Decidable (s.crashed = false ∧ s.Enabled e))

/-- What a run does to handlers. A late one is registered while a handler of `__funcs_on_exit` runs,
and one is passed over when the loop steps back from it without a look at it. -/
inductive Ev (φ α δ : Type)
  | registered (h : Handler φ α δ) (late : Bool)
  | called (h : Handler φ α δ)
  | passedOver (h : Handler φ α δ)
  deriving DecidableEq, Repr

namespace ExitFuncs

def events [DecidableEq δ] (s : ExitFuncs φ α δ) : Act φ α δ → List (Ev φ α δ)
  | .cxaAtexit h malloc =>
    match s.list.cxaAtexit malloc h with
    | some (_, true) => [.registered h s.pc.exiting]
    | _ => []
  | .next =>
    match s.pc with
    | .finalize dso (some node) =>
      let h := s.list.entry node
      if dso = h.dso ∧ h.func.isSome then [.called h] else []
    | .exit =>
      match s.list.tail with
      | some tail => if (s.list.entry tail).func.isSome then [.called (s.list.entry tail)] else []
      | none => []
    | .exitCall =>
      match s.list.tail with
      | some tail =>
        if (s.list.entry tail).func.isSome then [.passedOver (s.list.entry tail)] else []
      | none => []
    | _ => []
  | _ => []

variable (s : ExitFuncs φ α δ)

/-- The node whose handler `__cxa_finalize` runs. -/
def calling : Option Nat :=
  match s.pc with
  | .finalizeCall _ node => some node
  | _ => none

/-- The handlers in the list, the newest first. -/
def handlers : List (Handler φ α δ) := s.list.nodes.map s.list.entry

/-- The handlers in the list that have not been called, the newest first. -/
def pending : List (Handler φ α δ) :=
  ((s.list.nodes.filter fun n => some n ≠ s.calling).map s.list.entry).filter (·.func.isSome)

end ExitFuncs

def registeredOf (log : List (Ev φ α δ)) : List (Handler φ α δ) :=
  log.filterMap fun
    | .registered h _ => some h
    | _ => none

def lateOf (log : List (Ev φ α δ)) : List (Handler φ α δ) :=
  log.filterMap fun
    | .registered h true => some h
    | _ => none

def calledOf (log : List (Ev φ α δ)) : List (Handler φ α δ) :=
  log.filterMap fun
    | .called h => some h
    | _ => none

def passedOverOf (log : List (Ev φ α δ)) : List (Handler φ α δ) :=
  log.filterMap fun
    | .passedOver h => some h
    | _ => none

@[simp] theorem registeredOf_append (l₁ l₂ : List (Ev φ α δ)) :
    registeredOf (l₁ ++ l₂) = registeredOf l₁ ++ registeredOf l₂ := List.filterMap_append

@[simp] theorem lateOf_append (l₁ l₂ : List (Ev φ α δ)) :
    lateOf (l₁ ++ l₂) = lateOf l₁ ++ lateOf l₂ := List.filterMap_append

@[simp] theorem calledOf_append (l₁ l₂ : List (Ev φ α δ)) :
    calledOf (l₁ ++ l₂) = calledOf l₁ ++ calledOf l₂ := List.filterMap_append

@[simp] theorem passedOverOf_append (l₁ l₂ : List (Ev φ α δ)) :
    passedOverOf (l₁ ++ l₂) = passedOverOf l₁ ++ passedOverOf l₂ := List.filterMap_append

/-! ## What the list and the running call have in common -/

/-- Where the running call is in the list. -/
def Located (l : ExitList φ α δ) (used free : List Nat) : Pc δ → Prop
  | .idle => Anchored l used free ∧ l.len = used.length
  | .finalize _ o => Anchored l used free ∧ l.len = used.length ∧ ∀ n ∈ o, n ∈ used
  | .finalizeCall _ n => l.len = used.length ∧ n ∈ used
  | .exit => True
  | .exitCall => used ≠ []

/-- The list is linked as it should be, and the running call is at a node of it. This holds up to
the end of `__funcs_on_exit`, which leaves `head` and `len` as they are. -/
def Sound (s : ExitFuncs φ α δ) : Prop :=
  s.crashed = false ∧ ∃ used free, Represents s.list used free ∧ Located s.list used free s.pc

variable {s t : ExitFuncs φ α δ} {used free old new : List Nat} {n : Nat} {d : δ}
  {log : List (Ev φ α δ)} {es : List (Act φ α δ)}

theorem sound_initial (h : s.Initial) : Sound s ∧ s.pending = [] := by
  obtain ⟨hlen, hcap, htail, hhead, hpc, -, hcrashed⟩ := h
  have hl : Represents s.list [] [] :=
    ⟨List.nodup_nil, fun _ hn => absurd hn List.not_mem_nil, Chain.nil, Chain.nil, htail,
      by rw [hcap]; exact Nat.zero_le _, Nat.zero_le _⟩
  refine ⟨⟨hcrashed, [], [], hl, ?_⟩, ?_⟩
  · rw [hpc]
    exact ⟨fun _ => ⟨hhead, hlen⟩, hlen⟩
  · rw [ExitFuncs.pending, hl.nodes_eq]
    rfl

/-- A place in the list stays one when a node is put behind it. -/
theorem Located.append {l l' : ExitList φ α δ} {free' : List Nat} {pc : Pc δ}
    (h : Located l used free pc) (hlen : l'.len = l.len + 1)
    (hunlocked : pc = .idle ∨ (∃ d m, pc = .finalizeCall d m) ∨ pc = .exitCall) :
    Located l' (used ++ [n]) free' pc := by
  rcases hunlocked with rfl | ⟨d, m, rfl⟩ | rfl
  · exact ⟨fun hnil => absurd hnil (by simp), by rw [hlen, h.2]; simp⟩
  · exact ⟨by rw [hlen, h.1]; simp, List.mem_append_left _ h.2⟩
  · exact fun hnil => absurd hnil (by simp)

theorem Located.anchored {l : ExitList φ α δ} {pc : Pc δ} (h : Located l used free pc)
    (hunlocked : pc = .idle ∨ (∃ d m, pc = .finalizeCall d m) ∨ pc = .exitCall) :
    Anchored l used free := by
  rcases hunlocked with rfl | ⟨d, m, rfl⟩ | rfl
  · exact h.1
  · rintro rfl
    exact absurd h.2 List.not_mem_nil
  · exact fun hnil => absurd hnil h

theorem unlocked_cases (h : s.Unlocked) :
    s.pc = .idle ∨ (∃ d m, s.pc = .finalizeCall d m) ∨ s.pc = .exitCall := by
  unfold ExitFuncs.Unlocked at h
  split at h
  · exact Or.inl ‹_›
  · exact Or.inr (Or.inl ⟨_, _, ‹_›⟩)
  · exact Or.inr (Or.inr ‹_›)
  · exact h.elim

/-- A node is removed, and the loop goes on in front of it. -/
theorem remove_spec (hl : Represents s.list (old ++ n :: new) free)
    (hlen : s.list.len = (old ++ n :: new).length) (d : δ) :
    ∃ list, s.remove d n = { s with list := list, pc := .finalize d old.getLast? } ∧
      Represents list (old ++ new) (n :: free) ∧ Anchored list (old ++ new) (n :: free) ∧
      list.len = (old ++ new).length ∧ list.entry = s.list.entry := by
  obtain ⟨list, hremove, hl', ha, hentry, hlen'⟩ := represents_removeNode hl hlen
  exact ⟨list, by simp only [ExitFuncs.remove, hremove], hl', ha, hlen', hentry⟩

/-! ## What becomes of the handlers -/

section Lists

variable {entry entry' : Nat → Handler φ α δ} {l : List Nat} {h : Handler φ α δ}

/-- The handlers of nodes that still have a function. -/
def live (entry : Nat → Handler φ α δ) (l : List Nat) : List (Handler φ α δ) :=
  (l.map entry).filter (·.func.isSome)

theorem live_append (l₁ l₂ : List Nat) :
    live entry (l₁ ++ l₂) = live entry l₁ ++ live entry l₂ := by
  rw [live, List.map_append, List.filter_append]
  rfl

theorem live_cons_some (hf : (entry n).func.isSome = true) :
    live entry (n :: l) = entry n :: live entry l := by
  simp [live, hf]

theorem live_cons_none (hf : (entry n).func.isSome = false) :
    live entry (n :: l) = live entry l := by
  simp [live, hf]

theorem live_congr (hl : ∀ m ∈ l, entry' m = entry m) : live entry' l = live entry l := by
  rw [live, List.map_congr_left hl]
  rfl

end Lists

theorem pending_eq (hc : s.calling = none) : s.pending = live s.list.entry s.list.nodes := by
  simp [ExitFuncs.pending, hc, live]

theorem pending_eq_live :
    s.pending = live s.list.entry (s.list.nodes.filter fun n => some n ≠ s.calling) := rfl

theorem pending_calling (hc : s.calling = some n) {l₁ l₂ : List Nat}
    (hl : s.list.nodes = l₁ ++ n :: l₂) (h₁ : n ∉ l₁) (h₂ : n ∉ l₂) :
    s.pending = live s.list.entry (l₁ ++ l₂) := by
  have hkeep : ∀ l : List Nat, n ∉ l → l.filter (fun m => some m ≠ some n) = l := by
    intro l hn
    refine List.filter_eq_self.mpr fun m hm => ?_
    simpa using ne_of_mem_of_not_mem hm hn
  rw [ExitFuncs.pending, hc, hl, List.filter_append, List.filter_cons_of_neg (by simp),
    hkeep _ h₁, hkeep _ h₂, live]

/-- What a run has done to handlers, and what is left in the list. -/
structure Accounts (s : ExitFuncs φ α δ) (log : List (Ev φ α δ)) : Prop where
  sound : Sound s
  perm : ((registeredOf log).filter (·.func.isSome)).Perm
    (calledOf log ++ (passedOverOf log ++ s.pending))
  late : ∃ new old, s.list.nodes = new ++ old ∧
    (passedOverOf log ++ new.reverse.map s.list.entry).Sublist (lateOf log) ∧
    (s.pc = .exitCall → ∃ n, old.head? = some n ∧ (s.list.entry n).func = none)

theorem accounts_initial (h : s.Initial) : Accounts s [] := by
  obtain ⟨hs, hp⟩ := sound_initial h
  refine ⟨hs, by rw [hp]; exact List.Perm.refl [], [], s.list.nodes, rfl, List.Sublist.refl [],
    fun hpc => ?_⟩
  rw [h.2.2.2.2.1] at hpc
  cases hpc

/-- Only late handlers are passed over. -/
theorem Accounts.passedOver_sublist (h : Accounts s log) :
    (passedOverOf log).Sublist (lateOf log) := by
  obtain ⟨new, old, -, hlate, -⟩ := h.late
  exact (List.sublist_append_left _ _).trans hlate

/-- A step that only moves on, and does nothing to handlers. -/
theorem Accounts.goto (h : Accounts s log) (ht : Sound t) (hpc : t.pc ≠ .exitCall)
    (hpending : t.pending = s.pending) : Accounts t log := by
  refine ⟨ht, hpending ▸ h.perm, [], t.list.nodes, rfl, ?_, fun hp => absurd hp hpc⟩
  rw [List.reverse_nil, List.map_nil, List.append_nil]
  exact h.passedOver_sublist

/-- The loop of `__cxa_finalize` goes on in front of a removed node. -/
theorem Accounts.remove (hs : Accounts s log) (hl : Represents s.list (old ++ n :: new) free)
    (hlen : s.list.len = (old ++ n :: new).length) (d : δ)
    (hpending : s.pending = live s.list.entry (new.reverse ++ old.reverse)) :
    Accounts (s.remove d n) log := by
  obtain ⟨list, hremove, hl', ha, hlen', hentry⟩ := remove_spec hl hlen d
  rw [hremove]
  refine hs.goto ⟨hs.sound.1, old ++ new, n :: free, hl', ha, hlen', fun m hm => ?_⟩
    (fun h => by cases h) ?_
  · exact List.mem_append_left _ (List.mem_of_getLast? hm)
  · rw [hpending, pending_eq rfl]
    show live list.entry list.nodes = _
    rw [hentry, hl'.nodes_eq, List.reverse_append]

/-- A handler is called: it is not pending any more. -/
theorem Accounts.call {h : Handler φ α δ} {l₁ l₂ : List (Handler φ α δ)} (hs : Accounts s log)
    (ht : Sound t) (hpending : s.pending = l₁ ++ h :: l₂) (hpending' : t.pending = l₁ ++ l₂)
    (hlate : t.pc = .exitCall →
      ∃ n, t.list.nodes.head? = some n ∧ (t.list.entry n).func = none) :
    Accounts t (log ++ [.called h]) := by
  refine ⟨ht, ?_, [], t.list.nodes, rfl, ?_, hlate⟩
  · have hperm := hs.perm
    rw [hpending, ← List.append_assoc (passedOverOf log), ← List.append_assoc] at hperm
    rw [registeredOf_append, calledOf_append, passedOverOf_append, hpending']
    have : (calledOf log ++ (passedOverOf log ++ l₁) ++ h :: l₂).Perm
        (calledOf log ++ [h] ++ (passedOverOf log ++ (l₁ ++ l₂))) := by
      rw [List.append_assoc, List.append_assoc (calledOf log), List.singleton_append,
        ← List.append_assoc (passedOverOf log) l₁]
      exact List.perm_middle.append_left _
    simpa [registeredOf, passedOverOf, calledOf] using hperm.trans this
  · rw [passedOverOf_append, lateOf_append]
    simpa [passedOverOf, lateOf] using hs.passedOver_sublist

/-! ## The steps -/

variable [DecidableEq δ]

/-- Registering a handler: there is no memory, or the handler is in a new node behind the others. -/
theorem cxaAtexit_cases (hs : Sound s) (hu : s.Unlocked) (h : Handler φ α δ) (malloc : Bool) :
    s.step (.cxaAtexit h malloc) = s ∧ s.events (.cxaAtexit h malloc) = [] ∨
      ∃ list n, n ∉ s.list.nodes ∧ some n ≠ s.calling ∧
        s.step (.cxaAtexit h malloc) = { s with list := list } ∧
        s.events (.cxaAtexit h malloc) = [.registered h s.pc.exiting] ∧
        list.nodes = n :: s.list.nodes ∧ list.entry = Function.update s.list.entry n h ∧
        Sound { s with list := list } := by
  obtain ⟨hcrashed, used, free, hl, hpc⟩ := hs
  have hcases := unlocked_cases hu
  rcases represents_cxaAtexit hl (hpc.anchored hcases) malloc h with ⟨hfail, -⟩ |
    ⟨list, n, free', hok, hn, hl', hentry, hlen⟩
  · left
    simp only [ExitFuncs.step, ExitFuncs.events, hfail, and_self]
  · refine Or.inr ⟨list, n, ?_, ?_, ?_, ?_, ?_, hentry, hcrashed, used ++ [n], free', hl',
      hpc.append hlen hcases⟩
    · rw [hl.nodes_eq, List.mem_reverse]
      exact hn
    · intro hcalling
      rcases hcases with h | ⟨d, m, h⟩ | h <;> rw [ExitFuncs.calling, h] at hcalling
      · cases hcalling
      · cases hcalling
        rw [h] at hpc
        exact hn hpc.2
      · cases hcalling
    · simp only [ExitFuncs.step, hok]
    · simp only [ExitFuncs.events, hok]
    · rw [hl'.nodes_eq, hl.nodes_eq, List.reverse_append, List.reverse_singleton,
        List.singleton_append]

/-- What `__cxa_finalize` does to a node of its library. -/
theorem next_finalize_match (hpc : s.pc = .finalize d (some n)) (hd : d = (s.list.entry n).dso) :
    ((s.list.entry n).func.isSome = true ∧ s.next = { s with pc := .finalizeCall d n } ∧
        s.events .next = [.called (s.list.entry n)]) ∨
      (s.list.entry n).func.isSome = false ∧ s.next = s.remove d n ∧ s.events .next = [] := by
  cases hf : (s.list.entry n).func with
  | some f =>
    refine Or.inl ⟨rfl, ?_, ?_⟩
    · simp only [ExitFuncs.next, hpc, if_pos hd, hf]
    · simp only [ExitFuncs.events, hpc, hf]
      rw [if_pos ⟨hd, rfl⟩]
  | none =>
    refine Or.inr ⟨rfl, ?_, ?_⟩
    · simp only [ExitFuncs.next, hpc, if_pos hd, hf]
    · simp [ExitFuncs.events, hpc, hf]

/-- What `__cxa_finalize` does to a node of another library. -/
theorem next_finalize_other (hpc : s.pc = .finalize d (some n)) (hd : d ≠ (s.list.entry n).dso) :
    s.next = { s with pc := .finalize d (s.list.prev n) } ∧ s.events .next = [] := by
  constructor
  · simp only [ExitFuncs.next, hpc, if_neg hd]
  · simp only [ExitFuncs.events, hpc, hd, false_and, if_false]

/-- What `__funcs_on_exit` does to the last node. -/
theorem next_exit (hpc : s.pc = .exit) (htail : s.list.tail = some n) :
    let list := s.list.clearFunc n
    ((s.list.entry n).func.isSome = true ∧ s.next = { s with list := list, pc := .exitCall } ∧
        s.events .next = [.called (s.list.entry n)]) ∨
      (s.list.entry n).func.isSome = false ∧
        s.next = { s with list := { list with tail := list.prev n } } ∧ s.events .next = [] := by
  intro list
  cases hf : (s.list.entry n).func with
  | some f =>
    refine Or.inl ⟨rfl, ?_, ?_⟩
    · simp only [ExitFuncs.next, hpc, htail, hf]
      rfl
    · simp [ExitFuncs.events, hpc, htail, hf]
  | none =>
    refine Or.inr ⟨rfl, ?_, ?_⟩
    · simp only [ExitFuncs.next, hpc, htail, hf]
      rfl
    · simp [ExitFuncs.events, hpc, htail, hf]

/-- A handler of `__funcs_on_exit` has returned. -/
theorem next_exitCall (hpc : s.pc = .exitCall) (htail : s.list.tail = some n) :
    s.next = { s with list := { s.list with tail := s.list.prev n }, pc := .exit } ∧
      s.events .next =
        if (s.list.entry n).func.isSome then [.passedOver (s.list.entry n)] else [] := by
  constructor
  · simp only [ExitFuncs.next, hpc, htail]
  · simp only [ExitFuncs.events, hpc, htail]

theorem accounts_cxaAtexit (hs : Accounts s log) (hu : s.Unlocked) (h : Handler φ α δ)
    (malloc : Bool) :
    Accounts (s.step (.cxaAtexit h malloc)) (log ++ s.events (.cxaAtexit h malloc)) := by
  rcases cxaAtexit_cases hs.sound hu h malloc with ⟨hstep, hev⟩ |
    ⟨list, n, hn, hcalling, hstep, hev, hnodes, hentry, hsound⟩
  · rw [hstep, hev, List.append_nil]
    exact hs
  have hold : ∀ m ∈ s.list.nodes, list.entry m = s.list.entry m := fun m hm => by
    rw [hentry, Function.update_of_ne (ne_of_mem_of_not_mem hm hn)]
  have hnew : list.entry n = h := by rw [hentry, Function.update_self]
  have hpending : ({ s with list := list } : ExitFuncs φ α δ).pending =
      [h].filter (·.func.isSome) ++ s.pending := by
    show live list.entry (list.nodes.filter fun m => some m ≠ s.calling) = _
    rw [hnodes, List.filter_cons_of_pos (by simpa using hcalling), ← List.singleton_append,
      live_append, live_congr fun m hm => hold m (List.mem_of_mem_filter hm), ← pending_eq_live,
      live, List.map_singleton, hnew]
  rw [hstep, hev]
  refine ⟨hsound, ?_, ?_⟩
  · rw [hpending, registeredOf_append, calledOf_append, passedOverOf_append, List.filter_append]
    have hperm := hs.perm.append_right ([h].filter (·.func.isSome))
    rw [List.append_assoc, List.append_assoc] at hperm
    simpa [registeredOf, calledOf, passedOverOf] using
      hperm.trans ((List.perm_append_comm.append_left _).append_left _)
  · obtain ⟨new, old, hsplit, hlate, hcall⟩ := hs.late
    by_cases hpc : s.pc = .exitCall
    · refine ⟨n :: new, old, by rw [hnodes, hsplit, List.cons_append], ?_, fun hp => ?_⟩
      · have hnews : new.reverse.map list.entry = new.reverse.map s.list.entry :=
          List.map_congr_left fun m hm => hold m (by
            rw [hsplit]
            exact List.mem_append_left _ (List.mem_reverse.mp hm))
        rw [List.reverse_cons, List.map_append, hnews, List.map_singleton, hnew,
          passedOverOf_append, lateOf_append, hpc]
        simpa [passedOverOf, lateOf, Pc.exiting] using hlate.append_right [h]
      · obtain ⟨m, hm, hf⟩ := hcall hp
        refine ⟨m, hm, ?_⟩
        rw [hold m (by rw [hsplit]; exact List.mem_append_right _ (List.mem_of_head? hm))]
        exact hf
    · refine ⟨[], list.nodes, rfl, ?_, fun hp => absurd hp hpc⟩
      rw [passedOverOf_append, lateOf_append]
      simpa [passedOverOf] using hs.passedOver_sublist.trans (List.sublist_append_left _ _)

theorem accounts_finalize (hs : Accounts s log) {o : Option Nat} (hpc : s.pc = .finalize d o) :
    Accounts s.next (log ++ s.events .next) := by
  obtain ⟨hcrashed, used, free, hl, hloc⟩ := hs.sound
  rw [hpc] at hloc
  obtain ⟨ha, hlen, hused⟩ := hloc
  have hcalling : s.calling = none := by rw [ExitFuncs.calling, hpc]
  have hpending := pending_eq hcalling
  cases o with
  | none =>
    have hnext : s.next = { s with pc := .idle } := by simp only [ExitFuncs.next, hpc]
    have hev : s.events .next = [] := by simp only [ExitFuncs.events, hpc]
    rw [hnext, hev, List.append_nil]
    refine hs.goto ⟨hcrashed, used, free, hl, ha, hlen⟩ (fun h => by cases h) ?_
    rw [hpending]
    exact pending_eq rfl
  | some n =>
    obtain ⟨old, new, rfl⟩ := List.append_of_mem (hused n rfl)
    obtain ⟨hnodes, hnew, hold⟩ := hl.nodes_split
    by_cases hd : d = (s.list.entry n).dso
    · rcases next_finalize_match hpc hd with ⟨hf, hnext, hev⟩ | ⟨hf, hnext, hev⟩
      · rw [hnext, hev]
        have hbefore : s.pending = live s.list.entry new.reverse ++
            s.list.entry n :: live s.list.entry old.reverse := by
          rw [hpending, hnodes, live_append, live_cons_some hf]
        refine hs.call ⟨hcrashed, _, free, hl, hlen, hused n rfl⟩ hbefore ?_ fun h => by cases h
        exact Eq.trans (pending_calling rfl hnodes hnew hold) (live_append _ _)
      · rw [hnext, hev, List.append_nil]
        refine hs.remove hl hlen d ?_
        rw [hpending, hnodes, live_append, live_cons_none hf, ← live_append]
    · obtain ⟨hnext, hev⟩ := next_finalize_other hpc hd
      rw [hnext, hev, List.append_nil]
      refine hs.goto ⟨hcrashed, _, free, hl, ha, hlen, fun m hm => ?_⟩ (fun h => by cases h) ?_
      · rw [hl.prev_eq] at hm
        exact List.mem_append_left _ (List.mem_of_getLast? hm)
      · rw [hpending]
        exact pending_eq rfl

theorem accounts_finalizeCall (hs : Accounts s log) (hpc : s.pc = .finalizeCall d n) :
    Accounts s.next (log ++ s.events .next) := by
  obtain ⟨hcrashed, used, free, hl, hloc⟩ := hs.sound
  rw [hpc] at hloc
  obtain ⟨hlen, hn⟩ := hloc
  obtain ⟨old, new, rfl⟩ := List.append_of_mem hn
  obtain ⟨hnodes, hnew, hold⟩ := hl.nodes_split
  have hnext : s.next = s.remove d n := by simp only [ExitFuncs.next, hpc]
  have hev : s.events .next = [] := by simp only [ExitFuncs.events, hpc]
  rw [hnext, hev, List.append_nil]
  refine hs.remove hl hlen d (pending_calling ?_ hnodes hnew hold)
  rw [ExitFuncs.calling, hpc]

/-- `__funcs_on_exit` ends where no node is in use. -/
theorem exited_next_of_tail (hpc : s.pc = .exit) (htail : s.list.tail = none) :
    s.next = { s with pc := .idle, exited := true } := by
  simp only [ExitFuncs.next, hpc, htail]

/-- It has not ended where a step of it has not. -/
theorem exited_of_next (h : s.next.exited = false) : s.exited = false := by
  revert h
  unfold ExitFuncs.next ExitFuncs.remove
  repeat' split
  all_goals simp

theorem accounts_exit (hs : Accounts s log) (hpc : s.pc = .exit) (hx : s.next.exited = false) :
    Accounts s.next (log ++ s.events .next) := by
  obtain ⟨hcrashed, used, free, hl, -⟩ := hs.sound
  have hcalling : s.calling = none := by rw [ExitFuncs.calling, hpc]
  have hpending := pending_eq hcalling
  rcases List.eq_nil_or_concat used with rfl | ⟨u, t, rfl⟩
  · rw [exited_next_of_tail hpc hl.tail] at hx
    cases hx
  · rw [List.concat_eq_append] at hl
    have htail : s.list.tail = some t := by simp [hl.tail]
    obtain ⟨hnodes, -, hu⟩ := hl.nodes_split
    rw [List.reverse_nil, List.nil_append] at hnodes
    have hclear := hl.clearFunc t
    have hother : live (s.list.clearFunc t).entry u.reverse = live s.list.entry u.reverse :=
      live_congr fun m hm => s.list.entry_clearFunc_of_ne (ne_of_mem_of_not_mem hm hu)
    rcases next_exit hpc htail with ⟨hf, hnext, hev⟩ | ⟨hf, hnext, hev⟩
    · rw [hnext, hev]
      have hbefore : s.pending = [] ++ s.list.entry t :: live s.list.entry u.reverse := by
        rw [hpending, hnodes, live_cons_some hf, List.nil_append]
      have hnodes' : (s.list.clearFunc t).nodes = t :: u.reverse := by
        rw [hclear.nodes_eq, List.reverse_append, List.reverse_singleton, List.singleton_append]
      refine hs.call ⟨hcrashed, _, free, hclear, by simp [Located]⟩ hbefore ?_ fun _ =>
        ⟨t, by rw [hnodes']; rfl, s.list.func_clearFunc t⟩
      rw [pending_eq rfl, hnodes', live_cons_none (by rw [ExitList.func_clearFunc]; rfl), hother,
        List.nil_append]
    · rw [hnext, hev, List.append_nil]
      have hcounted : u.length ≤ (s.list.clearFunc t).len := by
        have := hclear.counted
        rw [List.length_append] at this
        exact Nat.le_of_add_right_le this
      have hmove := hclear.moveBack (s.list.clearFunc t).head (Nat.le_succ _) hcounted
      refine hs.goto ⟨hcrashed, u, t :: free, hmove, ?_⟩ (fun h => ?_) ?_
      · rw [hpc]
        trivial
      · rw [hpc] at h
        cases h
      · rw [hpending, pending_eq (by rw [ExitFuncs.calling, hpc])]
        show live (s.list.clearFunc t).entry (ExitList.nodes _) = _
        rw [hmove.nodes_eq, hnodes, live_cons_none hf]
        exact hother

theorem accounts_exitCall (hs : Accounts s log) (hpc : s.pc = .exitCall) :
    Accounts s.next (log ++ s.events .next) := by
  obtain ⟨hcrashed, used, free, hl, hloc⟩ := hs.sound
  rw [hpc] at hloc
  obtain ⟨u, t, rfl⟩ : ∃ u t, used = u ++ [t] := by
    rcases List.eq_nil_or_concat used with rfl | ⟨u, t, rfl⟩
    · exact absurd rfl hloc
    · exact ⟨u, t, List.concat_eq_append⟩
  have hcalling : s.calling = none := by rw [ExitFuncs.calling, hpc]
  have htail : s.list.tail = some t := by simp [hl.tail]
  have hnodes : s.list.nodes = t :: u.reverse := by
    rw [hl.nodes_eq, List.reverse_append, List.reverse_singleton, List.singleton_append]
  have hcounted : u.length ≤ s.list.len := by
    have := hl.counted
    rw [List.length_append] at this
    exact Nat.le_of_add_right_le this
  have hmove := hl.moveBack s.list.head (Nat.le_succ _) hcounted
  obtain ⟨hnext, hev⟩ := next_exitCall hpc htail
  have hsound : Sound s.next := by
    rw [hnext]
    exact ⟨hcrashed, u, t :: free, hmove, trivial⟩
  have hpending : s.next.pending = live s.list.entry u.reverse := by
    rw [hnext, pending_eq rfl]
    show live s.list.entry (ExitList.nodes _) = _
    rw [hmove.nodes_eq]
  have hpc' : s.next.pc ≠ .exitCall := by
    rw [hnext]
    intro h
    cases h
  rw [hev]
  cases hf : (s.list.entry t).func.isSome with
  | false =>
    rw [if_neg Bool.false_ne_true, List.append_nil]
    refine hs.goto hsound hpc' ?_
    rw [hpending, pending_eq hcalling, hnodes, live_cons_none hf]
  | true =>
    rw [if_pos rfl]
    have hperm := hs.perm
    rw [pending_eq hcalling, hnodes, live_cons_some hf] at hperm
    refine ⟨hsound, ?_, [], s.next.list.nodes, rfl, ?_, fun hp => absurd hp hpc'⟩
    · rw [hpending]
      simpa [registeredOf, calledOf, passedOverOf] using hperm
    · -- the last node has a function, so that it is not the one whose handler has returned
      obtain ⟨new, old, hsplit, hlate, hcall⟩ := hs.late
      rw [hnodes] at hsplit
      cases new with
      | nil =>
        obtain ⟨m, hm, hnone⟩ := hcall hpc
        rw [List.nil_append] at hsplit
        rw [← hsplit] at hm
        cases hm
        rw [hnone] at hf
        cases hf
      | cons m new =>
        rw [List.cons_append, List.cons.injEq] at hsplit
        rw [← hsplit.1, List.reverse_cons, List.map_append, List.map_singleton] at hlate
        rw [passedOverOf_append, lateOf_append]
        have hone : (passedOverOf log ++ [s.list.entry t]).Sublist (lateOf log) :=
          ((List.sublist_append_right _ _).append_left _).trans hlate
        simpa [passedOverOf, lateOf] using hone

theorem accounts_next (hs : Accounts s log) (hr : s.Running) (hx : s.next.exited = false) :
    Accounts s.next (log ++ s.events .next) := by
  cases hpc : s.pc with
  | idle => exact absurd hpc hr
  | finalize d o => exact accounts_finalize hs hpc
  | finalizeCall d n => exact accounts_finalizeCall hs hpc
  | exit => exact accounts_exit hs hpc hx
  | exitCall => exact accounts_exitCall hs hpc

/-- It does not end where a step has not ended it. -/
theorem exited_of_step (e : Act φ α δ) (h : (s.step e).exited = false) : s.exited = false := by
  cases e with
  | next => exact exited_of_next h
  | cxaFinalize d => exact h
  | exit => exact h
  | cxaAtexit handler malloc =>
    revert h
    unfold ExitFuncs.step
    dsimp only
    split
    all_goals exact id

theorem accounts_step (e : Act φ α δ) (hs : Accounts s log) (he : exitFuncs.enabled s e)
    (hx : (s.step e).exited = false) : Accounts (exitFuncs.step s e) (log ++ s.events e) := by
  obtain ⟨hcrashed, used, free, hl, hloc⟩ := hs.sound
  cases e with
  | cxaAtexit h malloc => exact accounts_cxaAtexit hs he.2 h malloc
  | next => exact accounts_next hs he.2 hx
  | cxaFinalize d =>
    have hpc : s.pc = .idle := he.2
    rw [hpc] at hloc
    show Accounts _ (log ++ [])
    rw [List.append_nil]
    refine hs.goto ⟨hcrashed, used, free, hl, hloc.1, hloc.2, fun n hn => ?_⟩
      (fun h => by cases h) ?_
    · rw [hl.tail] at hn
      exact List.mem_of_getLast? hn
    · rw [pending_eq (s := s) (by rw [ExitFuncs.calling, hpc])]
      exact pending_eq rfl
  | exit =>
    have hpc : s.pc = .idle := he.2
    show Accounts _ (log ++ [])
    rw [List.append_nil]
    refine hs.goto ⟨hcrashed, used, free, hl, trivial⟩ (fun h => by cases h) ?_
    rw [pending_eq (s := s) (by rw [ExitFuncs.calling, hpc])]
    exact pending_eq rfl

/-- What a run has done to handlers. -/
def logOf (s : ExitFuncs φ α δ) (es : List (Act φ α δ)) : List (Ev φ α δ) :=
  exitFuncs.emitted ExitFuncs.events s es

/-- In front of the end of `__funcs_on_exit`. -/
theorem accounts_run {s₀ : ExitFuncs φ α δ} (h₀ : s₀.Initial) (hr : exitFuncs.Run s₀ es s)
    (hx : s.exited = false) : Accounts s (logOf s₀ es) := by
  have hrun : s.exited = false → Accounts s ([] ++ logOf s₀ es) := by
    refine hr.invariant_emitted (I := fun s log => s.exited = false → Accounts s log)
      (fun s e log hs he hx => ?_) fun _ => accounts_initial h₀
    exact accounts_step e (hs (exited_of_step e hx)) he hx
  exact hrun hx

/-- In every run up to the end of `__funcs_on_exit` the list never leads to `NULL`, and each handler
that is registered is called once, or passed over, or it is still in the list. Those passed over are
registered while a handler of `__funcs_on_exit` runs. That one calls the newest handler in the list,
and none is left where it ends. -/
theorem exitFuncs_accounts {s₀ : ExitFuncs φ α δ} (h₀ : s₀.Initial)
    (hr : exitFuncs.Run s₀ es s) (hx : s.exited = false) :
    s.crashed = false ∧
      ((registeredOf (logOf s₀ es)).filter (·.func.isSome)).Perm
        (calledOf (logOf s₀ es) ++ (passedOverOf (logOf s₀ es) ++ s.pending)) ∧
      (passedOverOf (logOf s₀ es)).Sublist (lateOf (logOf s₀ es)) ∧
      (s.pc = .exit → ∀ h, .called h ∈ s.events .next → s.pending.head? = some h) ∧
      (s.pc = .exit → s.next.exited = true → s.pending = []) := by
  have ha := accounts_run h₀ hr hx
  obtain ⟨hcrashed, used, free, hl, -⟩ := ha.sound
  refine ⟨hcrashed, ha.perm, ha.passedOver_sublist, fun hpc h hh => ?_, fun hpc hend => ?_⟩
  · have hpending := pending_eq (s := s) (by rw [ExitFuncs.calling, hpc])
    cases htail : s.list.tail with
    | none =>
      rw [ExitFuncs.events, hpc, htail] at hh
      cases hh
    | some n =>
      obtain ⟨u, rfl⟩ := List.getLast?_eq_some_iff.mp (hl.tail.symm.trans htail)
      rcases next_exit hpc htail with ⟨hf, -, hev⟩ | ⟨-, -, hev⟩
      · rw [hev, List.mem_singleton] at hh
        cases hh
        rw [hpending, hl.nodes_eq, List.reverse_append, List.reverse_singleton,
          List.singleton_append, live_cons_some hf]
        rfl
      · rw [hev] at hh
        cases hh
  · cases htail : s.list.tail with
    | none =>
      have hnil : used = [] := List.getLast?_eq_none_iff.mp (hl.tail.symm.trans htail)
      rw [pending_eq (by rw [ExitFuncs.calling, hpc]), hl.nodes_eq, hnil]
      rfl
    | some n =>
      rcases next_exit hpc htail with ⟨-, hnext, -⟩ | ⟨-, hnext, -⟩
      all_goals
        rw [hnext, hx] at hend
        cases hend

/-- The variables when the program starts. -/
def atStart : ExitFuncs Nat Nat Nat where
  list :=
    { len := 0, capacity := 0, node := fun _ => ⟨⟨none, 0, 0⟩, none, none⟩, tail := none,
      head := none }

theorem initial_atStart : atStart.Initial := ⟨rfl, rfl, rfl, rfl, rfl, rfl, rfl⟩

/-- Three handlers, of which the last registers two more when the program exits. -/
def lateRun : List (Act Nat Nat Nat) :=
  [.cxaAtexit ⟨some 1, 10, 7⟩ false, .cxaAtexit ⟨some 2, 20, 8⟩ false, .exit, .next,
    .cxaAtexit ⟨some 3, 30, 7⟩ false, .cxaAtexit ⟨some 4, 40, 7⟩ false, .next, .next, .next, .next,
    .next, .next]

theorem exitFuncs_accounts_lateRun :
    let s := lateRun.foldl ExitFuncs.step atStart
    let log := logOf atStart lateRun
    s.crashed = false ∧
      ((registeredOf log).filter (·.func.isSome)).Perm
        (calledOf log ++ (passedOverOf log ++ s.pending)) ∧
      (passedOverOf log).Sublist (lateOf log) ∧
      (s.pc = .exit → ∀ h, .called h ∈ s.events .next → s.pending.head? = some h) ∧
      (s.pc = .exit → s.next.exited = true → s.pending = []) :=
  exitFuncs_accounts initial_atStart (System.Run.of_enabledAll (by decide)) (by decide)

example : passedOverOf (logOf atStart lateRun) = [⟨some 4, 40, 7⟩] := by decide

/-- Three libraries, of which two go before the program exits. `head` stays at the first node, which
then is not the first of the free ones any more. -/
def afterExit : List (Act Nat Nat Nat) :=
  [.cxaAtexit ⟨some 1, 10, 7⟩ false, .cxaAtexit ⟨some 2, 20, 8⟩ false,
    .cxaAtexit ⟨some 3, 30, 9⟩ false, .cxaFinalize 7, .next, .next, .next, .next, .next,
    .cxaFinalize 8, .next, .next, .next, .next, .exit, .next, .next, .next] ++
    List.replicate 31 (.cxaAtexit ⟨some 4, 40, 7⟩ false)

-- behind the end of `__funcs_on_exit` the list may lead to `NULL`
example : ∃ t, exitFuncs.Run atStart afterExit t ∧ t.crashed = true :=
  ⟨_, System.Run.of_enabledAll (by decide +kernel), by decide +kernel⟩

end Musl.Atexit
