import OpenHarmonyMac.Infra.Transition
import OpenHarmonyMac.Ldso.QueueCtors

/-!
# Constructors and destructors in a process with many threads

`do_init_fini` runs the constructors of a queue of objects, and `__libc_exit_fini` the destructors
when the program exits. Both work under `init_fini_lock`, which is free while a constructor runs. A
constructor may call `dlopen`, so that a thread may be in several calls at a time.

* `Linker` — what the threads share, and where each of them is
* `Linker.next` — what a thread does up to the next point where others may come in
* `initFini` — the threads, interleaved in any order
-/

namespace Ldso

open Infra DepthFirst

variable {τ δ : Type} [DecidableEq τ] [DecidableEq δ]

/-- Where a call of `do_init_fini` is: it is about to take the lock, it looks at an object under the
lock, it waits for the condition, the constructors of the object run, or they have run. -/
inductive Pc
  | lock
  | scan
  | wait
  | construct
  | relock
  deriving DecidableEq, Repr

/-- A call of `do_init_fini` with its local variables. -/
structure Frame (δ : Type) where
  queue : List δ
  i : Nat := 0
  pc : Pc := .lock
  deriving DecidableEq, Repr

/-- Where a call of `__libc_exit_fini` is, with the rest of the list that it has to go through. -/
inductive ExitPc (δ : Type)
  | lock
  | scan (rest : List δ)
  | wait (rest : List δ)
  | returned
  deriving DecidableEq, Repr

/-- What the threads share, and the calls that each of them is in, the innermost first. -/
structure Linker (τ δ : Type) where
  visitor : δ → Option τ
  constructed : δ → Bool
  finiHead : List δ
  shuttingDown : Bool
  initFiniLock : Option τ
  exitCalled : Bool
  frames : τ → List (Frame δ)
  exiting : τ → Option (ExitPc δ)

/-- What a thread may do. -/
inductive Act (τ δ : Type)
  | call (t : τ) (queue : List δ)
  | exit (t : τ)
  | next (t : τ)

/-- The functions of an object that a thread starts to run. -/
inductive Ran (δ : Type)
  | ctors (d : δ)
  | dtors (d : δ)
  deriving DecidableEq

namespace Linker

def initial : Linker τ δ where
  visitor _ := none
  constructed _ := false
  finiHead := []
  shuttingDown := false
  initFiniLock := none
  exitCalled := false
  frames _ := []
  exiting _ := none

variable (hasFini : δ → Bool) (s : Linker τ δ) (t : τ)

def setFrames (fs : List (Frame δ)) : Linker τ δ :=
  { s with frames := Function.update s.frames t fs }

def setExiting (pc : ExitPc δ) : Linker τ δ :=
  { s with exiting := Function.update s.exiting t (some pc) }

/-- The object has to wait: another thread is at its constructors, or the program exits. -/
def mustWait (p : δ) : Bool :=
  ((s.visitor p).isSome && s.visitor p != some t) || s.shuttingDown

/-- `do_init_fini` under the lock. Which functions of the object are its constructors is left out:
`DT_INIT` and those of the array, of which none is called where `fcodec` is in the name of the
object. -/
def scan (f : Frame δ) (fs : List (Frame δ)) : Linker τ δ :=
  match f.queue[f.i]? with
  | none => { s with initFiniLock := none }.setFrames t fs
  | some p =>
    if s.mustWait t p then
      { s with initFiniLock := none }.setFrames t ({ f with pc := .wait } :: fs)
    else if (s.visitor p).isSome || s.constructed p then
      s.setFrames t ({ f with i := f.i + 1 } :: fs)
    else
      { s with
        visitor := Function.update s.visitor p (some t)
        finiHead := if hasFini p then p :: s.finiHead else s.finiHead
        initFiniLock := none }.setFrames t ({ f with pc := .construct } :: fs)

/-- `do_init_fini` when the constructors have run. -/
def finish (f : Frame δ) (fs : List (Frame δ)) : Linker τ δ :=
  match f.queue[f.i]? with
  | none => s
  | some p =>
    { s with
      visitor := Function.update s.visitor p none
      constructed := Function.update s.constructed p true
      initFiniLock := some t }.setFrames t ({ f with i := f.i + 1, pc := .scan } :: fs)

/-- `__libc_exit_fini` under the lock, which it never gives back. -/
def exitScan : List δ → Linker τ δ
  | [] => s.setExiting t .returned
  | p :: rest =>
    if (s.visitor p).isSome && s.visitor p != some t then
      { s with initFiniLock := none }.setExiting t (.wait (p :: rest))
    else s.setExiting t (.scan rest)

/-- What a thread does next. -/
def next : Linker τ δ :=
  match s.exiting t with
  | some .lock =>
    { s with initFiniLock := some t, shuttingDown := true }.setExiting t (.scan s.finiHead)
  | some (.scan rest) => s.exitScan t rest
  | some (.wait rest) => { s with initFiniLock := some t }.setExiting t (.scan rest)
  | some .returned => s
  | none =>
    match s.frames t with
    | [] => s
    | f :: fs =>
      match f.pc with
      | .lock | .wait =>
        { s with initFiniLock := some t }.setFrames t ({ f with pc := .scan } :: fs)
      | .scan => s.scan hasFini t f fs
      | .construct => s.setFrames t ({ f with pc := .relock } :: fs)
      | .relock => s.finish t f fs

/-- The functions that the next step of a thread starts. -/
def runs : List (Ran δ) :=
  match s.exiting t with
  | some (.scan (p :: _)) =>
    if !((s.visitor p).isSome && s.visitor p != some t) && s.constructed p then [.dtors p] else []
  | some _ => []
  | none =>
    match s.frames t with
    | [] => []
    | f :: _ =>
      match f.pc, f.queue[f.i]? with
      | .scan, some p =>
        if s.mustWait t p || (s.visitor p).isSome || s.constructed p then [] else [.ctors p]
      | _, _ => []

/-- The thread runs code of the program: outside of the linker, or in a constructor. -/
def atProgram : Prop := s.exiting t = none ∧ ∀ f ∈ (s.frames t).head?, f.pc = .construct

/-- There is a next step of the thread, and it does not need a lock that another one holds. -/
def ready : Bool :=
  match s.exiting t with
  | some .lock | some (.wait _) => s.initFiniLock.isNone
  | some (.scan _) => true
  | some .returned => false
  | none =>
    match s.frames t with
    | [] => false
    | f :: _ =>
      match f.pc with
      | .lock | .wait | .relock => s.initFiniLock.isNone
      | .scan | .construct => true

end Linker

/-- The threads of a process. Each of them may call `dlopen` and, once, one of them `exit`. -/
def initFini (hasFini : δ → Bool) : System (Linker τ δ) (Act τ δ) where
  init s := s = Linker.initial
  enabled s
    | .call t _ => s.atProgram t
    | .exit t => s.atProgram t ∧ s.exitCalled = false
    | .next t => s.ready t
  step s
    | .call t queue => s.setFrames t ({ queue := queue } :: s.frames t)
    | .exit t => { s with exitCalled := true }.setExiting t .lock
    | .next t => s.next hasFini t

instance (hasFini : δ → Bool) (s : Linker τ δ) :
    ∀ e, Decidable ((initFini hasFini).enabled s e)
  | .call t _ => inferInstanceAs (Decidable (s.exiting t = none ∧ ∀ f ∈ (s.frames t).head?, _))
  | .exit t =>
    inferInstanceAs (Decidable ((s.exiting t = none ∧ ∀ f ∈ (s.frames t).head?, _) ∧ _ = _))
  | .next t => inferInstanceAs (Decidable (s.ready t = true))

/-- What runs in a step. -/
def ran (s : Linker τ δ) : Act τ δ → List (Ran δ)
  | .next t => s.runs t
  | _ => []

/-- The objects whose constructors have been started, in order. -/
def ctorsOf (log : List (Ran δ)) : List δ :=
  log.filterMap fun | .ctors d => some d | .dtors _ => none

/-- The objects whose destructors have been started, in order. -/
def dtorsOf (log : List (Ran δ)) : List δ :=
  log.filterMap fun | .ctors _ => none | .dtors d => some d

/-! ## The calls of a thread -/

/-- A step changes the innermost call of its thread, or returns from it. -/
theorem Linker.frames_next (hasFini : δ → Bool) (s : Linker τ δ) (t u : τ) :
    (s.next hasFini t).frames u = s.frames u ∨ ∃ f fs, s.frames u = f :: fs ∧
      ((s.next hasFini t).frames u = fs ∨
        ∃ f', f'.queue = f.queue ∧ (s.next hasFini t).frames u = f' :: fs) := by
  unfold Linker.next
  cases hexit : s.exiting t with
  | some pc =>
    cases pc with
    | scan rest =>
      cases rest with
      | nil => exact Or.inl rfl
      | cons p rest =>
        simp only [Linker.exitScan]
        split <;> exact Or.inl rfl
    | lock => exact Or.inl rfl
    | wait rest => exact Or.inl rfl
    | returned => exact Or.inl rfl
  | none =>
    cases hf : s.frames t with
    | nil => exact Or.inl rfl
    | cons f fs =>
      simp only
      by_cases hu : u = t
      · cases hu
        have hset : ∀ (s' : Linker τ δ) (f' : Frame δ), f'.queue = f.queue →
            ∃ g gs, s.frames t = g :: gs ∧ ((s'.setFrames t (f' :: fs)).frames t = gs ∨
              ∃ g', g'.queue = g.queue ∧ (s'.setFrames t (f' :: fs)).frames t = g' :: gs) :=
          fun s' f' hq => ⟨f, fs, hf, Or.inr ⟨f', hq, Function.update_self ..⟩⟩
        split
        · exact Or.inr (hset _ _ rfl)
        · exact Or.inr (hset _ _ rfl)
        · unfold Linker.scan
          split
          · exact Or.inr ⟨f, fs, hf, Or.inl (Function.update_self ..)⟩
          · split
            · exact Or.inr (hset _ _ rfl)
            · split <;> exact Or.inr (hset _ _ rfl)
        · exact Or.inr (hset _ _ rfl)
        · unfold Linker.finish
          split
          · exact Or.inl rfl
          · exact Or.inr (hset _ _ rfl)
      · have hset : ∀ (s' : Linker τ δ) (gs : List (Frame δ)), s'.frames = s.frames →
            (s'.setFrames t gs).frames u = s.frames u :=
          fun s' gs hs' => by
            show Function.update s'.frames t gs u = s.frames u
            rw [hs', Function.update_of_ne hu]
        refine Or.inl ?_
        split
        · exact hset _ _ rfl
        · exact hset _ _ rfl
        · unfold Linker.scan
          split
          · exact hset _ _ rfl
          · split
            · exact hset _ _ rfl
            · split <;> exact hset _ _ rfl
        · exact hset _ _ rfl
        · unfold Linker.finish
          split
          · rfl
          · exact hset _ _ rfl

theorem Linker.queue_next {hasFini : δ → Bool} {s : Linker τ δ} {t u : τ} {g : Frame δ}
    (hg : g ∈ (s.next hasFini t).frames u) : ∃ f ∈ s.frames u, f.queue = g.queue := by
  rcases s.frames_next hasFini t u with heq | ⟨f, fs, hf, hpop | ⟨f', hq, heq⟩⟩
  · exact ⟨g, heq ▸ hg, rfl⟩
  · exact ⟨g, hf ▸ List.mem_cons_of_mem f (hpop ▸ hg), rfl⟩
  · rw [heq, List.mem_cons] at hg
    rcases hg with rfl | hg
    · exact ⟨f, hf ▸ List.mem_cons_self, hq.symm⟩
    · exact ⟨g, hf ▸ List.mem_cons_of_mem f hg, rfl⟩

/-- The calls further out are in constructors. -/
def Linker.Nested (s : Linker τ δ) : Prop :=
  ∀ t f fs, s.frames t = f :: fs → ∀ g ∈ fs, g.pc = .construct

theorem Linker.Nested.next {hasFini : δ → Bool} {s : Linker τ δ} (h : s.Nested) (t : τ) :
    (s.next hasFini t).Nested := by
  intro u f' fs' hf' g hg
  rcases s.frames_next hasFini t u with heq | ⟨f, fs, hf, hpop | ⟨f'', _, heq⟩⟩
  · exact h u f' fs' (heq ▸ hf') g hg
  · refine h u f fs hf g ?_
    rw [← hpop, hf']
    exact List.mem_cons_of_mem f' hg
  · rw [heq, List.cons.injEq] at hf'
    exact h u f fs hf g (hf'.2 ▸ hg)

/-! ## The lock -/

/-- The next step of a thread is one under the lock. -/
def Linker.UnderLock (s : Linker τ δ) (t : τ) : Prop :=
  match s.exiting t with
  | some (.scan _) | some .returned => True
  | some _ => False
  | none => ∃ f fs, s.frames t = f :: fs ∧ f.pc = .scan

/-- What a step of a thread does to the lock: it takes it, gives it back or leaves it alone, and
goes on accordingly. -/
def Linker.Locks (s s' : Linker τ δ) (t : τ) : Prop :=
  (∀ u, u ≠ t → (s'.UnderLock u ↔ s.UnderLock u)) ∧
    (s'.initFiniLock = s.initFiniLock ∧ (s'.UnderLock t ↔ s.UnderLock t) ∨
      s.initFiniLock = none ∧ s'.initFiniLock = some t ∧ s'.UnderLock t ∨
      s.UnderLock t ∧ s'.initFiniLock = none ∧ ¬ s'.UnderLock t)

omit [DecidableEq τ] [DecidableEq δ] in
theorem Linker.Locks.owner {s s' : Linker τ δ} {t : τ} (h : s.Locks s' t)
    (hs : ∀ u, s.initFiniLock = some u ↔ s.UnderLock u) (u : τ) :
    s'.initFiniLock = some u ↔ s'.UnderLock u := by
  obtain ⟨hother, ⟨hlock, hself⟩ | ⟨hnone, hlock, hself⟩ | ⟨hheld, hlock, hself⟩⟩ := h
  · rw [hlock, hs]
    by_cases hu : u = t
    · rw [hu, hself]
    · rw [hother u hu]
  · rw [hlock]
    by_cases hu : u = t
    · simp [hu, hself]
    · rw [hother u hu, ← hs, hnone]
      simp [Ne.symm hu]
  · rw [hlock]
    by_cases hu : u = t
    · simp [hu, hself]
    · rw [hother u hu, ← hs, (hs t).mpr hheld]
      simp [Ne.symm hu]

omit [DecidableEq δ] in
theorem Linker.underLock_setFrames_of_ne {s s' : Linker τ δ} {t u : τ} (hu : u ≠ t)
    {fs : List (Frame δ)} (hframes : s'.frames = Function.update s.frames t fs)
    (hexiting : s'.exiting = s.exiting) : s'.UnderLock u ↔ s.UnderLock u := by
  simp only [Linker.UnderLock, hframes, hexiting, Function.update_of_ne hu]

omit [DecidableEq δ] in
theorem Linker.underLock_setExiting_of_ne {s s' : Linker τ δ} {t u : τ} (hu : u ≠ t)
    {pc : ExitPc δ} (hframes : s'.frames = s.frames)
    (hexiting : s'.exiting = Function.update s.exiting t (some pc)) :
    s'.UnderLock u ↔ s.UnderLock u := by
  simp only [Linker.UnderLock, hframes, hexiting, Function.update_of_ne hu]

theorem Linker.locks_next {hasFini : δ → Bool} {s : Linker τ δ} {t : τ} (hnested : s.Nested)
    (hready : s.ready t) : s.Locks (s.next hasFini t) t := by
  unfold Linker.next
  cases hexit : s.exiting t with
  | some pc =>
    cases pc with
    | lock =>
      refine ⟨fun u hu => underLock_setExiting_of_ne hu rfl rfl, Or.inr (Or.inl ⟨?_, rfl, ?_⟩)⟩
      · simpa [Linker.ready, hexit] using hready
      · simp [Linker.UnderLock, Linker.setExiting]
    | scan rest =>
      have hheld : s.UnderLock t := by simp [Linker.UnderLock, hexit]
      cases rest with
      | nil =>
        refine ⟨fun u hu => underLock_setExiting_of_ne hu rfl rfl, Or.inl ⟨rfl, ?_⟩⟩
        simp [Linker.UnderLock, Linker.exitScan, Linker.setExiting, hexit]
      | cons p rest =>
        simp only [Linker.exitScan]
        split
        · refine ⟨fun u hu => underLock_setExiting_of_ne hu rfl rfl,
            Or.inr (Or.inr ⟨hheld, rfl, ?_⟩)⟩
          simp [Linker.UnderLock, Linker.setExiting]
        · refine ⟨fun u hu => underLock_setExiting_of_ne hu rfl rfl, Or.inl ⟨rfl, ?_⟩⟩
          simp [Linker.UnderLock, Linker.setExiting, hexit]
    | wait rest =>
      refine ⟨fun u hu => underLock_setExiting_of_ne hu rfl rfl, Or.inr (Or.inl ⟨?_, rfl, ?_⟩)⟩
      · simpa [Linker.ready, hexit] using hready
      · simp [Linker.UnderLock, Linker.setExiting]
    | returned => simp [Linker.ready, hexit] at hready
  | none =>
    cases hf : s.frames t with
    | nil => simp [Linker.ready, hexit, hf] at hready
    | cons f fs =>
      simp only
      split
      · next hpc =>
        refine ⟨fun u hu => underLock_setFrames_of_ne hu rfl rfl, Or.inr (Or.inl ⟨?_, rfl, ?_⟩)⟩
        · simpa [Linker.ready, hexit, hf, hpc] using hready
        · simp [Linker.UnderLock, Linker.setFrames, hexit]
      · next hpc =>
        refine ⟨fun u hu => underLock_setFrames_of_ne hu rfl rfl, Or.inr (Or.inl ⟨?_, rfl, ?_⟩)⟩
        · simpa [Linker.ready, hexit, hf, hpc] using hready
        · simp [Linker.UnderLock, Linker.setFrames, hexit]
      · next hpc =>
        have hheld : s.UnderLock t := by simp [Linker.UnderLock, hexit, hf, hpc]
        unfold Linker.scan
        split
        · refine ⟨fun u hu => underLock_setFrames_of_ne hu rfl rfl,
            Or.inr (Or.inr ⟨hheld, rfl, ?_⟩)⟩
          simp only [Linker.UnderLock, Linker.setFrames, hexit, Function.update_self]
          rintro ⟨g, gs, rfl, hg⟩
          rw [hnested t f _ hf g List.mem_cons_self] at hg
          cases hg
        · split
          · refine ⟨fun u hu => underLock_setFrames_of_ne hu rfl rfl,
              Or.inr (Or.inr ⟨hheld, rfl, ?_⟩)⟩
            simp [Linker.UnderLock, Linker.setFrames, hexit]
          · split
            · refine ⟨fun u hu => underLock_setFrames_of_ne hu rfl rfl, Or.inl ⟨rfl, ?_⟩⟩
              simp [Linker.UnderLock, Linker.setFrames, hexit, hf]
            · refine ⟨fun u hu => underLock_setFrames_of_ne hu rfl rfl,
                Or.inr (Or.inr ⟨hheld, rfl, ?_⟩)⟩
              simp [Linker.UnderLock, Linker.setFrames, hexit]
      · next hpc =>
        refine ⟨fun u hu => underLock_setFrames_of_ne hu rfl rfl, Or.inl ⟨rfl, ?_⟩⟩
        simp [Linker.UnderLock, Linker.setFrames, hexit, hf, hpc]
      · next hpc =>
        unfold Linker.finish
        split
        · exact ⟨fun u _ => Iff.rfl, Or.inl ⟨rfl, Iff.rfl⟩⟩
        · refine ⟨fun u hu => underLock_setFrames_of_ne hu rfl rfl, Or.inr (Or.inl ⟨?_, rfl, ?_⟩)⟩
          · simpa [Linker.ready, hexit, hf, hpc] using hready
          · simp [Linker.UnderLock, Linker.setFrames, hexit]

/-- In every run the lock belongs to the thread whose next step is one under it. -/
theorem initFini_lock {hasFini : δ → Bool} {s : Linker τ δ} {es : List (Act τ δ)}
    (hr : (initFini hasFini).Run Linker.initial es s) (t : τ) :
    s.initFiniLock = some t ↔ s.UnderLock t := by
  have hinv : s.Nested ∧ ∀ t, s.initFiniLock = some t ↔ s.UnderLock t := by
    refine hr.invariant (I := fun s => s.Nested ∧ ∀ t, s.initFiniLock = some t ↔ s.UnderLock t)
      (fun s e hs he => ?_) ⟨fun _ _ _ hf => (nomatch hf), fun _ => ?_⟩
    · cases e with
      | call t queue =>
        refine ⟨fun u f fs hf g hg => ?_, Linker.Locks.owner (s := s) (t := t)
          ⟨fun u hu => Linker.underLock_setFrames_of_ne hu rfl rfl, Or.inl ⟨rfl, ?_⟩⟩ hs.2⟩
        · by_cases hu : u = t
          · cases hu
            simp only [initFini, Linker.setFrames, Function.update_self] at hf
            cases hf
            cases hframes : s.frames t with
            | nil => simp [hframes] at hg
            | cons f fs =>
              rw [hframes, List.mem_cons] at hg
              rcases hg with rfl | hg
              · exact he.2 _ (by rw [hframes]; rfl)
              · exact hs.1 t f fs hframes g hg
          · simp only [initFini, Linker.setFrames, Function.update_of_ne hu] at hf
            exact hs.1 u f fs hf g hg
        · have hnot : ¬ s.UnderLock t := by
            simp only [Linker.UnderLock, he.1]
            rintro ⟨f, fs, hf, hpc⟩
            rw [he.2 f (by rw [hf]; rfl)] at hpc
            cases hpc
          simp [Linker.UnderLock, initFini, Linker.setFrames, he.1] at hnot ⊢
          exact hnot
      | exit t =>
        refine ⟨hs.1, Linker.Locks.owner (s := s) (t := t)
          ⟨fun u hu => Linker.underLock_setExiting_of_ne hu rfl rfl,
            Or.inl ⟨rfl, ?_⟩⟩ hs.2⟩
        have hnot : ¬ s.UnderLock t := by
          simp only [Linker.UnderLock, he.1.1]
          rintro ⟨f, fs, hf, hpc⟩
          rw [he.1.2 f (by rw [hf]; rfl)] at hpc
          cases hpc
        refine iff_of_false ?_ hnot
        simp [Linker.UnderLock, initFini, Linker.setExiting]
      | next t => exact ⟨hs.1.next t, (Linker.locks_next hs.1 he).owner hs.2⟩
    · simp [Linker.initial, Linker.UnderLock]
  exact hinv.2 t

/-- Two threads load the same three objects. A constructor of the first object calls `dlopen` for the
second one, while the other thread waits for it; and then the program exits. -/
def shortProgram : List (Act Nat Nat) :=
  [.call 0 [2, 1, 0], .next 0, .next 0, .call 1 [2, 1, 0], .next 1, .next 1,
    -- in the constructor
    .call 0 [2, 1], .next 0, .next 0, .next 0, .next 0, .next 0, .next 0,
    .next 0, .next 0, .next 0, .next 0, .next 1, .next 1, .next 1, .next 1,
    .next 0, .next 0, .next 0, .next 1, .next 1, .next 1,
    .exit 0, .next 0, .next 0, .next 0, .next 0]

end Ldso
