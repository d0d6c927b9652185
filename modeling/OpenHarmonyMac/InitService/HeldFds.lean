import OpenHarmonyMac.Infra.Transition
import OpenHarmonyMac.InitService.Stopping

/-!
# The descriptors that init holds for a service

A service hands descriptors over to init, which keeps them while the service is restarted
(`UpdaterServiceFds`, `CloseServiceFds`) and gives duplicates of them to its next process
(`PublishHoldFds`).

What the three calls are for is `Holding`: some descriptors are held, and when others take their
place each of them is closed.

* `lawful_iff` — when every call of a run does what it is for
* `run_accounts` — each descriptor handed over has been closed once or is still held
* `publishes_iff` — when the environment variable names the duplicates
-/

namespace InitService

open Infra

/-! ## Holding -/

/-- The entries of an array of descriptors that stand for one. -/
def openFds (fds : List Int) : List Int := fds.filter (· ≠ -1)

@[simp] theorem openFds_nil : openFds [] = [] := rfl

/-- The descriptors held, and all `close` calls so far. -/
@[ext]
structure Holding where
  held : List Int := []
  closed : List Int := []
deriving DecidableEq, Repr

/-- Other descriptors take the place of those held. -/
def Holding.replace (h : Holding) (fds : List Int) : Holding where
  held := fds
  closed := h.closed ++ openFds h.held

theorem Holding.replace_nil {h : Holding} (hheld : h.held = []) : h.replace [] = h := by
  ext1
  · exact hheld.symm
  · simp [Holding.replace, hheld]

/-! ## The service -/

/-- `service->fdCount` and `service->fds`, with the `close` calls made. -/
structure HeldFds where
  fdCount : Nat := 0
  /-- The allocation behind the pointer, `none` for NULL. -/
  fds : Option (List Int) := none
  closed : List Int := []
deriving DecidableEq, Repr

/-- What the allocator and `memcpy_s` answer. -/
structure UpdateEnv where
  calloc : Bool := true
  memcpyS : Bool := true
deriving DecidableEq, Repr

namespace HeldFds

variable (m : HeldFds)

def held : List Int := (m.fds.getD []).take m.fdCount

@[simps]
def holding : Holding where
  held := m.held
  closed := m.closed

/-- The loop of `CloseServiceFds`, `none` where it would read behind the allocation. -/
def closeSlots : Option HeldFds :=
  match m.fds with
  | none => none
  | some slots =>
    if m.fdCount ≤ slots.length then
      some { m with
        fds := some (List.replicate m.fdCount (-1) ++ slots.drop m.fdCount)
        closed := m.closed ++ openFds (slots.take m.fdCount) }
    else none

def closeServiceFds (needFree : Bool) : Option HeldFds :=
  (if m.fdCount ≠ 0 then m.closeSlots else some m).map fun m =>
    { m with fdCount := 0, fds := if needFree then none else m.fds }

/-- `memcpy_s` into `service->fds` and what depends on it, `none` where it would write behind the
allocation. -/
def storeFds (env : UpdateEnv) (fds : List Int) : Option (Int × HeldFds) :=
  match m.fds with
  -- a NULL destination is refused
  | none => some (-1, { m with fdCount := 0 })
  | some slots =>
    if env.memcpyS then
      if fds.length ≤ slots.length then
        some (0, { m with
          fdCount := fds.length, fds := some (fds ++ slots.drop fds.length) })
      else none
    else some (-1, { m with fdCount := 0, fds := none })

/-- `UpdaterServiceFds` from the check of the number on. -/
def allocateFds (maxHoldFds : Nat) (env : UpdateEnv) (fds : List Int) : Option (Int × HeldFds) :=
  if fds.length ≤ maxHoldFds then
    if env.calloc then
      { m with fds := some (List.replicate (fds.length + 1) 0) }.storeFds env fds
    else some (-1, { m with fds := none })
  else some (-1, m)

/-- `fds` is `none` when the array is NULL, or the service. -/
def updaterServiceFds (maxHoldFds : Nat) (env : UpdateEnv) (fds : Option (List Int)) :
    Option (Int × HeldFds) :=
  match fds with
  | none => some (-1, m)
  | some fds =>
    if fds.length = 0 then some (0, m)
    else if m.fdCount = fds.length then
      (m.closeServiceFds false).bind fun m => m.storeFds env fds
    else
      (if 0 < m.fdCount then m.closeServiceFds true else some m).bind fun m =>
        m.allocateFds maxHoldFds env fds

/-- What `ServiceStop` does to the descriptors. -/
def serviceStop (pid : Int) : Option HeldFds :=
  if pid ≤ 0 then some m
  else if m.fdCount ≠ 0 then m.closeServiceFds true
  else some m

end HeldFds

/-! ## Runs -/

inductive FdCall
  | updaterServiceFds (env : UpdateEnv) (fds : Option (List Int))
  | closeServiceFds (needFree : Bool)
  | serviceStop (pid : Int)
deriving DecidableEq, Repr

namespace FdCall

/-- One call. -/
def call (maxHoldFds : Nat) (m : HeldFds) : FdCall → Option HeldFds
  | .updaterServiceFds env fds => (m.updaterServiceFds maxHoldFds env fds).map Prod.snd
  | .closeServiceFds needFree => m.closeServiceFds needFree
  | .serviceStop pid => m.serviceStop pid

/-- The calls on one service; `none` is a state behind an access to foreign memory. -/
def system (maxHoldFds : Nat) : System (Option HeldFds) FdCall where
  init s := s = some {}
  enabled _ _ := True
  step s e := s.bind fun m => e.call maxHoldFds m

end FdCall

/-! ## What the calls promise -/

/-- A count has an allocation with a slot more than it. -/
def HeldFds.Allocated (maxHoldFds : Nat) (m : HeldFds) : Prop :=
  0 < m.fdCount →
    m.fdCount ≤ maxHoldFds ∧ ∃ slots, m.fds = some slots ∧ slots.length = m.fdCount + 1

/-- What an update comes to, with its result and the descriptors held after it: NULL and too
many descriptors change nothing, no descriptors are ignored, and a failure in between leaves the
service with nothing. -/
def UpdateLaw (maxHoldFds : Nat) (fds : Option (List Int)) (before : Holding) (ret : Int)
    (after : Holding) : Prop :=
  match fds with
  | none => ret = -1 ∧ after = before
  | some fds =>
    if fds = [] then after = before
    else if maxHoldFds < fds.length then ret = -1 ∧ after = before
    else ret = 0 ∧ after = before.replace fds ∨ ret = -1 ∧ after = before.replace []

/-- The promise of one call. -/
def Lawful (maxHoldFds : Nat) (s : Option HeldFds) (e : FdCall) : Prop :=
  ∃ m, s = some m ∧
    match e with
    | .updaterServiceFds env fds => ∃ ret m',
        m.updaterServiceFds maxHoldFds env fds = some (ret, m') ∧
          UpdateLaw maxHoldFds fds m.holding ret m'.holding
    | .closeServiceFds needFree => ∃ m',
        m.closeServiceFds needFree = some m' ∧ m'.holding = m.holding.replace []
    | .serviceStop pid => ∃ m', m.serviceStop pid = some m' ∧
        m'.holding = if pid ≤ 0 then m.holding else m.holding.replace []

/-- The state of a service, which no call has brought outside its memory. -/
def Sound (maxHoldFds : Nat) (s : Option HeldFds) : Prop :=
  ∃ m, s = some m ∧ m.Allocated maxHoldFds

/-- The call is no update with too many descriptors for a service that holds some. -/
def KeepsHeld (maxHoldFds : Nat) (s : Option HeldFds) (e : FdCall) : Prop :=
  ∀ m env fds, s = some m → e = .updaterServiceFds env (some fds) → maxHoldFds < fds.length →
    m.fdCount = 0

/-! ## Each call -/

namespace HeldFds

variable {maxHoldFds : Nat} {m m' : HeldFds} {slots : List Int}

theorem held_of_fdCount_eq_zero (h : m.fdCount = 0) : m.held = [] := by
  simp [held, h]

theorem replace_nil_of_fdCount_eq_zero (h : m.fdCount = 0) :
    m.holding.replace [] = m.holding :=
  Holding.replace_nil (held_of_fdCount_eq_zero h)

theorem allocated_of_fdCount_eq_zero (h : m.fdCount = 0) : m.Allocated maxHoldFds := by
  intro hpos
  omega

/-- What `CloseServiceFds` leaves: nothing is held, and the block is kept just in case it need
not be freed. -/
structure Closed (needFree : Bool) (m m' : HeldFds) : Prop where
  fdCount : m'.fdCount = 0
  holding : m'.holding = m.holding.replace []
  block : needFree = false → m'.fds.map List.length = m.fds.map List.length

/-- **Closing** stays inside the allocation and closes what is held. -/
theorem closeServiceFds_spec (h : m.Allocated maxHoldFds) (needFree : Bool) :
    ∃ m', m.closeServiceFds needFree = some m' ∧ Closed needFree m m' := by
  by_cases hz : m.fdCount = 0
  · have heq : m.closeServiceFds needFree =
        some { m with fdCount := 0, fds := if needFree then none else m.fds } := by
      simp [closeServiceFds, hz]
    refine ⟨_, heq, rfl, ?_, ?_⟩
    · rw [replace_nil_of_fdCount_eq_zero hz]
      simp [HeldFds.holding, held, hz]
    · rintro rfl
      rfl
  · obtain ⟨-, slots, hslots, hlen⟩ := h (by omega)
    have hle : m.fdCount ≤ slots.length := by omega
    have heq : m.closeServiceFds needFree = some {
        fdCount := 0
        fds := if needFree then none
          else some (List.replicate m.fdCount (-1) ++ slots.drop m.fdCount)
        closed := m.closed ++ openFds (slots.take m.fdCount) } := by
      simp [closeServiceFds, closeSlots, hz, hslots, hle]
    refine ⟨_, heq, rfl, ?_, ?_⟩
    · simp [HeldFds.holding, Holding.replace, held, hslots]
    · rintro rfl
      simp [hslots]
      omega

/-- What `memcpy_s` leaves: the descriptors, or nothing. -/
structure Stored (fds : List Int) (m : HeldFds) (ret : Int) (m' : HeldFds) : Prop where
  closed : m'.closed = m.closed
  outcome :
    ret = 0 ∧ m'.held = fds ∧ m'.fdCount = fds.length ∧
        m'.fds.map List.length = some (fds.length + 1) ∨
      ret = -1 ∧ m'.fdCount = 0

theorem Stored.holding {fds : List Int} {ret : Int} (h : Stored fds m ret m') :
    ret = 0 ∧ m'.holding = ⟨fds, m.closed⟩ ∨ ret = -1 ∧ m'.holding = ⟨[], m.closed⟩ := by
  rcases h.outcome with ⟨hret, hheld, -, -⟩ | ⟨hret, hz⟩
  · exact Or.inl ⟨hret, by rw [HeldFds.holding, hheld, h.closed]⟩
  · exact Or.inr ⟨hret, by rw [HeldFds.holding, held_of_fdCount_eq_zero hz, h.closed]⟩

theorem Stored.allocated {fds : List Int} {ret : Int} (h : Stored fds m ret m')
    (hle : fds.length ≤ maxHoldFds) : m'.Allocated maxHoldFds := by
  rcases h.outcome with ⟨-, -, hcount, hblock⟩ | ⟨-, hz⟩
  · intro _
    obtain ⟨slots, hslots, hlen⟩ := Option.map_eq_some_iff.mp hblock
    exact ⟨by omega, slots, hslots, by omega⟩
  · exact allocated_of_fdCount_eq_zero hz

theorem storeFds_spec (env : UpdateEnv) {fds : List Int}
    (h : m.fds.map List.length = some (fds.length + 1)) :
    ∃ ret m', m.storeFds env fds = some (ret, m') ∧ Stored fds m ret m' := by
  obtain ⟨slots, hslots, hlen⟩ := Option.map_eq_some_iff.mp h
  by_cases hcopy : env.memcpyS = true
  · have heq : m.storeFds env fds = some (0, { m with
        fdCount := fds.length, fds := some (fds ++ slots.drop fds.length) }) := by
      simp [storeFds, hslots, hcopy, hlen]
    refine ⟨0, _, heq, rfl, Or.inl ⟨rfl, ?_, rfl, ?_⟩⟩
    · simp [held]
    · simp
      omega
  · have heq : m.storeFds env fds = some (-1, { m with fdCount := 0, fds := none }) := by
      simp [storeFds, hslots, hcopy]
    exact ⟨-1, _, heq, rfl, Or.inr ⟨rfl, rfl⟩⟩

/-- From the check of the number on, with nothing held any more. -/
theorem allocateFds_spec (env : UpdateEnv) {fds : List Int} (hz : m.fdCount = 0)
    (hle : fds.length ≤ maxHoldFds) :
    ∃ ret m', m.allocateFds maxHoldFds env fds = some (ret, m') ∧ Stored fds m ret m' := by
  by_cases hc : env.calloc = true
  · have hroom : ({ m with fds := some (List.replicate (fds.length + 1) 0) } : HeldFds).fds.map
        List.length = some (fds.length + 1) := by simp
    obtain ⟨ret, m', heq, hs⟩ := storeFds_spec env hroom
    exact ⟨ret, m', by simp [allocateFds, hle, hc, heq], hs.closed, hs.outcome⟩
  · have heq : m.allocateFds maxHoldFds env fds = some (-1, { m with fds := none }) := by
      simp [allocateFds, hle, hc]
    exact ⟨-1, _, heq, rfl, Or.inr ⟨rfl, hz⟩⟩

/-- What an update with some descriptors comes to. -/
structure Updated (maxHoldFds : Nat) (fds : List Int) (m : HeldFds) (ret : Int) (m' : HeldFds) :
    Prop where
  allocated : m'.Allocated maxHoldFds
  overlong : maxHoldFds < fds.length → ret = -1
  outcome :
    ret = 0 ∧ m'.holding = m.holding.replace fds ∨ ret = -1 ∧ m'.holding = m.holding.replace []

theorem Closed.updated {needFree : Bool} {fds : List Int} {ret : Int} {m'' : HeldFds}
    (hc : Closed needFree m m') (hs : Stored fds m' ret m'') (hle : fds.length ≤ maxHoldFds) :
    Updated maxHoldFds fds m ret m'' where
  allocated := hs.allocated hle
  overlong := fun hlong => absurd hle (by omega)
  outcome := by
    have hclosed : m'.closed = m.closed ++ openFds m.held := congrArg Holding.closed hc.holding
    have h := hs.holding
    rw [hclosed] at h
    exact h

theorem closed_refl (h : m.fdCount = 0) : Closed false m m :=
  ⟨h, (replace_nil_of_fdCount_eq_zero h).symm, fun _ => rfl⟩

/-- From the check of the number on, when nothing is held any more. -/
theorem Closed.allocateFds {needFree : Bool} (hc : Closed needFree m m') (env : UpdateEnv)
    (fds : List Int) :
    ∃ ret m'', m'.allocateFds maxHoldFds env fds = some (ret, m'') ∧
      Updated maxHoldFds fds m ret m'' := by
  by_cases hle : fds.length ≤ maxHoldFds
  · obtain ⟨ret, m'', heq, hs⟩ := allocateFds_spec env hc.fdCount hle
    exact ⟨ret, m'', heq, hc.updated hs hle⟩
  · -- The refusal comes when the old descriptors are gone.
    have heq : m'.allocateFds maxHoldFds env fds = some (-1, m') := by
      simp [HeldFds.allocateFds, hle]
    exact ⟨-1, m', heq, allocated_of_fdCount_eq_zero hc.fdCount, fun _ => rfl,
      Or.inr ⟨rfl, hc.holding⟩⟩

/-- **Updating** with some descriptors stays inside the allocation, and either all of them take
the place of those held or nothing does. -/
theorem updaterServiceFds_spec (h : m.Allocated maxHoldFds) (env : UpdateEnv) {fds : List Int}
    (hne : fds ≠ []) :
    ∃ ret m', m.updaterServiceFds maxHoldFds env (some fds) = some (ret, m') ∧
      Updated maxHoldFds fds m ret m' := by
  have hlen : fds.length ≠ 0 := fun hz => hne (List.length_eq_zero_iff.mp hz)
  unfold updaterServiceFds
  simp only [if_neg hlen]
  by_cases hcount : m.fdCount = fds.length
  · -- The block is used again.
    obtain ⟨hle, slots, hslots, hslen⟩ := h (by omega)
    obtain ⟨m₁, heq, hc⟩ := closeServiceFds_spec h false
    have hblock : m₁.fds.map List.length = some (fds.length + 1) := by
      rw [hc.block rfl, hslots, Option.map_some, hslen, hcount]
    obtain ⟨ret, m', hstore, hs⟩ := storeFds_spec env hblock
    rw [if_pos hcount, heq]
    exact ⟨ret, m', hstore, hc.updated hs (by omega)⟩
  · rw [if_neg hcount]
    by_cases hpos : 0 < m.fdCount
    · obtain ⟨m₁, heq, hc⟩ := closeServiceFds_spec h true
      rw [if_pos hpos, heq]
      exact hc.allocateFds env fds
    · rw [if_neg hpos]
      exact (closed_refl (by omega)).allocateFds env fds

theorem serviceStop_spec (h : m.Allocated maxHoldFds) (pid : Int) :
    ∃ m', m.serviceStop pid = some m' ∧ m'.Allocated maxHoldFds ∧
      m'.holding = if pid ≤ 0 then m.holding else m.holding.replace [] := by
  unfold serviceStop
  by_cases hpid : pid ≤ 0
  · exact ⟨m, if_pos hpid, h, (if_pos hpid).symm⟩
  · rw [if_neg hpid]
    by_cases hz : m.fdCount = 0
    · refine ⟨m, if_neg (by omega), h, ?_⟩
      rw [if_neg hpid, replace_nil_of_fdCount_eq_zero hz]
    · obtain ⟨m', heq, hc⟩ := closeServiceFds_spec h true
      refine ⟨m', by rw [if_pos hz, heq], allocated_of_fdCount_eq_zero hc.fdCount, ?_⟩
      rw [if_neg hpid, hc.holding]

theorem length_held (h : m.Allocated maxHoldFds) : m.held.length = m.fdCount := by
  by_cases hz : m.fdCount = 0
  · simp [held, hz]
  · obtain ⟨-, slots, hslots, hlen⟩ := h (by omega)
    simp [held, hslots]
    omega

/-- Closing what is held shows, when something is. -/
theorem replace_nil_eq_iff (h : m.Allocated maxHoldFds) :
    m.holding.replace [] = m.holding ↔ m.fdCount = 0 := by
  refine ⟨fun heq => ?_, replace_nil_of_fdCount_eq_zero⟩
  have hheld : [] = m.held := congrArg Holding.held heq
  rw [← length_held h, ← hheld, List.length_nil]

/-- The law of updates holds of an update with some descriptors unless there are too many and
others are held. -/
theorem Updated.law_iff {fds : List Int} {ret : Int} (h : m.Allocated maxHoldFds)
    (hu : Updated maxHoldFds fds m ret m') (hne : fds ≠ []) :
    UpdateLaw maxHoldFds (some fds) m.holding ret m'.holding ↔
      (maxHoldFds < fds.length → m.fdCount = 0) := by
  simp only [UpdateLaw, if_neg hne]
  by_cases hlong : maxHoldFds < fds.length
  · have hret := hu.overlong hlong
    have hheld : m'.holding = m.holding.replace [] := by
      rcases hu.outcome with ⟨hzero, -⟩ | ⟨-, hheld⟩
      · omega
      · exact hheld
    rw [if_pos hlong, hheld, replace_nil_eq_iff h]
    exact ⟨fun hlaw _ => hlaw.2, fun hz => ⟨hret, hz hlong⟩⟩
  · rw [if_neg hlong]
    exact ⟨fun _ habs => absurd habs hlong, fun _ => hu.outcome⟩

end HeldFds

/-! ## Every run -/

section Runs

variable {maxHoldFds : Nat} {m : HeldFds}

theorem lawful_update_iff (h : m.Allocated maxHoldFds) (env : UpdateEnv)
    (fds : Option (List Int)) :
    Sound maxHoldFds (FdCall.call maxHoldFds m (.updaterServiceFds env fds)) ∧
      (Lawful maxHoldFds (some m) (.updaterServiceFds env fds) ↔
        ∀ fds', fds = some fds' → maxHoldFds < fds'.length → m.fdCount = 0) := by
  cases fds with
  | none =>
    refine ⟨⟨m, rfl, h⟩, fun _ _ habs => (by cases habs), fun _ => ⟨m, rfl, -1, m, rfl, ?_⟩⟩
    exact ⟨rfl, rfl⟩
  | some fds =>
    by_cases hne : fds = []
    · subst hne
      refine ⟨⟨m, rfl, h⟩, fun _ fds' heq hlong => ?_, fun _ => ⟨m, rfl, 0, m, rfl, rfl⟩⟩
      cases heq
      simp at hlong
    · obtain ⟨ret, m', heq, hu⟩ := HeldFds.updaterServiceFds_spec h env hne
      refine ⟨⟨m', by simp [FdCall.call, heq], hu.allocated⟩, ?_⟩
      constructor
      · rintro ⟨m₀, hm, ret', m'', heq', hlaw⟩ fds' hfds
        cases hm
        cases hfds
        rw [heq] at heq'
        cases heq'
        exact (hu.law_iff h hne).mp hlaw
      · intro hk
        exact ⟨m, rfl, ret, m', heq, (hu.law_iff h hne).mpr (hk fds rfl)⟩

/-- One call keeps the service sound, and is lawful just in case it is no update that comes too
late to be refused. -/
theorem sound_step {s : Option HeldFds} (hs : Sound maxHoldFds s) (e : FdCall) :
    Sound maxHoldFds ((FdCall.system maxHoldFds).step s e) ∧
      (Lawful maxHoldFds s e ↔ KeepsHeld maxHoldFds s e) := by
  obtain ⟨m, rfl, h⟩ := hs
  cases e with
  | updaterServiceFds env fds =>
    obtain ⟨hsound, hiff⟩ := lawful_update_iff h env fds
    refine ⟨hsound, hiff.trans ⟨?_, ?_⟩⟩
    · rintro hk m₀ env' fds' hm hcall
      cases hm
      cases hcall
      exact hk fds' rfl
    · rintro hk fds' rfl
      exact hk m env fds' rfl rfl
  | closeServiceFds needFree =>
    obtain ⟨m', heq, hc⟩ := HeldFds.closeServiceFds_spec h needFree
    refine ⟨⟨m', heq, HeldFds.allocated_of_fdCount_eq_zero hc.fdCount⟩, ?_⟩
    exact ⟨fun _ _ _ _ _ habs => (by cases habs), fun _ => ⟨m, rfl, m', heq, hc.holding⟩⟩
  | serviceStop pid =>
    obtain ⟨m', heq, halloc, hheld⟩ := HeldFds.serviceStop_spec h pid
    refine ⟨⟨m', heq, halloc⟩, ?_⟩
    exact ⟨fun _ _ _ _ _ habs => (by cases habs), fun _ => ⟨m, rfl, m', heq, hheld⟩⟩

theorem sound_empty : Sound maxHoldFds (some {}) :=
  ⟨{}, rfl, HeldFds.allocated_of_fdCount_eq_zero rfl⟩

end Runs

/-- **When a service keeps its descriptors.** In every run the allocation has the size of the
count, and each call does what it is for just in case no update with too many descriptors comes
while others are held. -/
theorem lawful_iff (maxHoldFds : Nat) (calls : List FdCall) :
    (FdCall.system maxHoldFds).Throughout (Sound maxHoldFds) (some {}) calls ∧
        (FdCall.system maxHoldFds).EachStep (Lawful maxHoldFds) (some {}) calls ↔
      (FdCall.system maxHoldFds).EachStep (KeepsHeld maxHoldFds) (some {}) calls := by
  have hrun : (FdCall.system maxHoldFds).Run (some {}) calls _ :=
    System.Run.of_forall_enabled (fun _ _ => trivial) _ _
  have hstep : ∀ s e, Sound maxHoldFds s → (FdCall.system maxHoldFds).enabled s e →
      Sound maxHoldFds ((FdCall.system maxHoldFds).step s e) ∧
        (Lawful maxHoldFds s e ↔ KeepsHeld maxHoldFds s e) :=
    fun s e hs _ => sound_step hs e
  rw [hrun.eachStep_congr hstep sound_empty]
  refine and_iff_right ?_
  exact hrun.throughout_of_invariant (fun s e hs he => (hstep s e hs he).1) sound_empty

/-- A service that holds a descriptor loses it to an update that is refused. -/
theorem overlong_update_closes :
    ¬ ((FdCall.system 2).Throughout (Sound 2) (some {})
          [.updaterServiceFds {} (some [7]), .updaterServiceFds {} (some [8, 9, 10])] ∧
        (FdCall.system 2).EachStep (Lawful 2) (some {})
          [.updaterServiceFds {} (some [7]), .updaterServiceFds {} (some [8, 9, 10])]) := by
  rintro ⟨-, -, ⟨m, hm, ret, m', heq, hlaw⟩, -⟩
  have hfirst : m = { fdCount := 1, fds := some [7, 0] } := (Option.some.inj hm).symm
  subst hfirst
  have hsecond : (ret, m') = (-1, { fdCount := 0, fds := none, closed := [7] }) :=
    (Option.some.inj heq).symm
  cases hsecond
  simp [UpdateLaw, HeldFds.holding, HeldFds.held] at hlaw

/-! ## Every descriptor -/

section Accounts

variable {maxHoldFds : Nat} {m : HeldFds}

/-- The descriptors that a call hands over for good. -/
def FdCall.stored (maxHoldFds : Nat) (s : Option HeldFds) : FdCall → List Int
  | .updaterServiceFds env (some fds) =>
    if s.any fun m =>
      (m.updaterServiceFds maxHoldFds env (some fds)).any fun r => r.1 == 0 then openFds fds
    else []
  | _ => []

/-- The books of a service: what was handed over has been closed or is held. -/
def Accounts (maxHoldFds : Nat) (s : Option HeldFds) (fds : List Int) : Prop :=
  ∃ m, s = some m ∧ m.Allocated maxHoldFds ∧ m.closed ++ openFds m.held = fds

/-- The books when what is held is closed. -/
theorem replaced_accounts {h h' : Holding} {fds : List Int} (heq : h' = h.replace fds) :
    h'.closed ++ openFds h'.held = h.closed ++ openFds h.held ++ openFds fds := by
  rw [heq]
  rfl

theorem accounts_update {env : UpdateEnv} {fds : List Int} {xs : List Int}
    (h : Accounts maxHoldFds (some m) xs) :
    Accounts maxHoldFds (FdCall.call maxHoldFds m (.updaterServiceFds env (some fds)))
      (xs ++ FdCall.stored maxHoldFds (some m) (.updaterServiceFds env (some fds))) := by
  obtain ⟨m₀, hm, halloc, rfl⟩ := h
  cases hm
  by_cases hne : fds = []
  · subst hne
    exact ⟨m, rfl, halloc, by simp [FdCall.stored, HeldFds.updaterServiceFds, openFds]⟩
  · obtain ⟨ret, m', heq, hu⟩ := HeldFds.updaterServiceFds_spec halloc env hne
    refine ⟨m', by simp [FdCall.call, heq], hu.allocated, ?_⟩
    rcases hu.outcome with ⟨rfl, hheld⟩ | ⟨rfl, hheld⟩
    · simpa [FdCall.stored, heq] using replaced_accounts hheld
    · simpa [FdCall.stored, heq] using replaced_accounts hheld

theorem accounts_step {s : Option HeldFds} {xs : List Int} (e : FdCall)
    (h : Accounts maxHoldFds s xs) :
    Accounts maxHoldFds ((FdCall.system maxHoldFds).step s e)
      (xs ++ FdCall.stored maxHoldFds s e) := by
  obtain ⟨m, rfl, halloc, hbooks⟩ := h
  cases e with
  | updaterServiceFds env fds =>
    cases fds with
    | none => exact ⟨m, rfl, halloc, by simpa [FdCall.stored] using hbooks⟩
    | some fds => exact accounts_update ⟨m, rfl, halloc, hbooks⟩
  | closeServiceFds needFree =>
    obtain ⟨m', heq, hc⟩ := HeldFds.closeServiceFds_spec halloc needFree
    refine ⟨m', heq, HeldFds.allocated_of_fdCount_eq_zero hc.fdCount, ?_⟩
    exact (replaced_accounts hc.holding).trans (congrArg (· ++ []) hbooks)
  | serviceStop pid =>
    obtain ⟨m', heq, halloc', hheld⟩ := HeldFds.serviceStop_spec halloc pid
    refine ⟨m', heq, halloc', ?_⟩
    split at hheld
    · have h : m'.closed ++ openFds m'.held = m.closed ++ openFds m.held :=
        congrArg (fun h : Holding => h.closed ++ openFds h.held) hheld
      simpa [FdCall.stored] using h.trans hbooks
    · exact (replaced_accounts hheld).trans (congrArg (· ++ []) hbooks)

end Accounts

/-- **Every descriptor that was handed over has been closed once or is held**, in their order and
whatever was refused on the way. -/
theorem run_accounts (maxHoldFds : Nat) (calls : List FdCall) :
    Accounts maxHoldFds (calls.foldl (FdCall.system maxHoldFds).step (some {}))
      ((FdCall.system maxHoldFds).emitted (FdCall.stored maxHoldFds) (some {}) calls) := by
  have hrun : (FdCall.system maxHoldFds).Run (some {}) calls _ :=
    System.Run.of_forall_enabled (fun _ _ => trivial) _ _
  have hinit : Accounts maxHoldFds (some {}) [] :=
    ⟨{}, rfl, HeldFds.allocated_of_fdCount_eq_zero rfl, rfl⟩
  have h := hrun.invariant_emitted (fun s e xs hs _ => accounts_step e hs) hinit
  rwa [List.nil_append] at h

/-! ## The whole service -/

namespace State

variable {pf : Platform} (st : State pf)

/-- What is held in the model of the whole service, which leaves the allocation out. -/
@[simps]
def holding : Holding where
  held := st.service.fds
  closed := st.calls.filterMap fun
    | .close fd => some fd
    | _ => none

theorem holding_call {c : Call} (h : ∀ fd, c ≠ .close fd) : (st.call c).holding = st.holding := by
  ext1
  · rfl
  · cases c with
    | close fd => exact absurd rfl (h fd)
    | _ => simp

theorem holding_doJob (job : Option String) : (st.doJob job).holding = st.holding := by
  cases job with
  | none => rfl
  | some job => exact st.holding_call fun fd => by simp

theorem holding_closeServiceFds : st.closeServiceFds.holding = st.holding.replace [] := by
  ext1
  · rfl
  · have hid : ((fun c => match c with
        | Call.close fd => some fd
        | _ => none) ∘ Call.close) = (some : Int → Option Int) := rfl
    rw [holding, closeServiceFds, List.filterMap_append, List.filterMap_map, hid,
      List.filterMap_some]
    rfl

theorem holding_serviceStopTimer : st.serviceStopTimer.holding = st.holding := by
  unfold serviceStopTimer
  split
  · rfl
  · rfl

theorem holding_stopProcess (killed : Bool) :
    (st.stopProcess killed).1.holding = st.holding.replace [] := by
  have hfirst : ((st.call .closeServiceSocket).call .closeServiceFile).holding = st.holding := by
    rw [holding_call _ fun fd => by simp, holding_call _ fun fd => by simp]
  have hclosed : ∀ st' : State pf, st'.holding = st.holding →
      (if st'.service.fds ≠ [] then st'.closeServiceFds else st').holding
        = st.holding.replace [] := by
    intro st' heq
    by_cases hfds : st'.service.fds = []
    · have hheld : st.holding.held = [] := by
        rw [← heq]
        exact hfds
      rw [if_neg (not_not.mpr hfds), heq, Holding.replace_nil hheld]
    · rw [if_pos hfds, holding_closeServiceFds, heq]
  have htimer : ∀ st' : State pf,
      (if st'.isServiceWithTimerEnabled then st'.serviceStopTimer else st').holding
        = st'.holding := by
    intro st'
    split
    · exact st'.holding_serviceStopTimer
    · rfl
  unfold stopProcess
  dsimp only
  cases killed with
  | true =>
    refine (holding_call _ fun fd => by simp).trans ?_
    refine (holding_call _ fun fd => by simp).trans ?_
    rw [htimer, hclosed _ hfirst]
  | false =>
    refine (holding_call _ fun fd => by simp).trans ?_
    rw [htimer, hclosed _ hfirst]

/-- **Stopping**, in both models. -/
theorem holding_serviceStop (killed : Bool) :
    (st.serviceStop killed).1.holding =
      if st.service.pid ≤ 0 then st.holding else st.holding.replace [] := by
  have hfirst : st.beginStop.holding = st.holding := by
    refine (rfl : _ = ((st.call (.notifyServiceChange .stopping)).doJob _).holding).trans ?_
    rw [holding_doJob, holding_call _ fun fd => by simp]
  rw [serviceStop_eq, (sameProcess_beginStop st).pid]
  by_cases hpid : st.service.pid ≤ 0
  · rw [if_pos hpid, if_pos hpid, hfirst]
  · rw [if_neg hpid, if_neg hpid, holding_stopProcess, hfirst]

end State

/-! ## Publishing -/

/-- The sizes of the buffers and the start of the variable's name, from the headers of init. -/
structure FdHolder where
  maxFdHolderBuffer : Nat
  maxBufferLen : Nat
  envFdHoldPrefix : List Char

/-- The error that `PublishHoldFds` returns itself, or what `setenv` returns. -/
inductive PublishRet
  | eformat
  | ret (value : Int)
deriving DecidableEq, Repr

/-- What `PublishHoldFds` does. -/
structure Published where
  ret : PublishRet
  /-- The variable that it sets, with its value. -/
  setenv : Option (List Char × List Char) := none
  /-- It has written outside `fdBuffer`. -/
  outside : Bool := false
deriving DecidableEq, Repr

/-- `snprintf_s` at `pos` of a buffer, `none` where the text does not fit. No more than `destMax`
bytes are written then either. -/
def snprintfS (buf : List Char) (pos destMax count : Nat) (text : List Char) :
    Option (List Char × Nat) :=
  if text.length ≤ count ∧ text.length < destMax then
    some (buf.take pos ++ (text ++ Char.ofNat 0 :: buf.drop (pos + text.length + 1)), text.length)
  else none

namespace HeldFds

/-- The loop of `PublishHoldFds` over the answers of `dup`: the buffer and the cursor at the end,
`none` where a number does not fit. -/
def formatFds (size : Nat) : List Int → List Char → Nat → Option (List Char × Nat)
  | [], buf, pos => some (buf, pos)
  | fd :: fds, buf, pos =>
    if fd < 0 then formatFds size fds buf pos
    else
      match snprintfS buf pos (size - pos) (size - 1) (formatInt fd ++ [' ']) with
      | none => none
      | some (buf, ret) => formatFds size fds buf (pos + ret)

/-- `fdBuffer[pos - 1] = '\0'`, and whether this is outside the buffer. The cursor is unsigned, so
in front of the buffer there is a huge index. -/
def removeLast (buf : List Char) (pos : Nat) : List Char × Bool :=
  if 0 < pos ∧ pos ≤ buf.length then (buf.set (pos - 1) (Char.ofNat 0), false)
  else (buf, true)

/-- `dup` answers the call for each slot, and `setenv` the one at the end. -/
def publishHoldFds (k : FdHolder) (name : List Char) (dup : Nat → Int → Int) (setenv : Int)
    (m : HeldFds) : Published :=
  if m.fdCount = 0 ∨ m.fds = none then { ret := .ret 0 }
  else
    match sprintfS k.maxBufferLen (k.envFdHoldPrefix ++ name) with
    | none => { ret := .eformat }
    | some envName =>
      match formatFds k.maxFdHolderBuffer (m.held.mapIdx dup)
          (List.replicate k.maxFdHolderBuffer (Char.ofNat 0)) 0 with
      | none => { ret := .eformat }
      | some (buf, pos) =>
        let (buf, outside) := removeLast buf pos
        { ret := .ret setenv, setenv := some (envName, cString buf), outside }

end HeldFds

/-- The decimal numbers of the duplicates, with single blanks between them. -/
def spelled (dups : List Int) : List Char :=
  [' '].intercalate ((dups.filter (0 ≤ ·)).map formatInt)

/-- Nothing is written outside the buffer, and the variable names the duplicates. -/
def Publishes (dups : List Int) (p : Published) : Prop :=
  p.outside = false ∧ ∀ name value, p.setenv = some (name, value) → value = spelled dups

section Publish

variable {size : Nat} {text buf : List Char} {pos : Nat} {dups : List Int}

/-- What the loop writes: the duplicates, each with a blank behind it. -/
def formatted (dups : List Int) : List Char :=
  (dups.filter (0 ≤ ·)).flatMap fun fd => formatInt fd ++ [' ']

/-- The buffer with a text at its start, and the cursor behind the text. -/
structure Filled (size : Nat) (text buf : List Char) (pos : Nat) : Prop where
  buf : buf = text ++ List.replicate (size - text.length) (Char.ofNat 0)
  pos : pos = text.length
  fits : text.length ≤ size

theorem Filled.snprintfS (h : Filled size text buf pos) {new : List Char} {ret : Nat}
    {buf' : List Char} (heq : snprintfS buf pos (size - pos) (size - 1) new = some (buf', ret)) :
    Filled size (text ++ new) buf' (pos + ret) := by
  obtain ⟨rfl, rfl, hfits⟩ := h
  unfold InitService.snprintfS at heq
  split at heq
  · next hroom =>
    obtain ⟨-, hlt⟩ := hroom
    cases heq
    have htail : Char.ofNat 0 :: List.replicate (size - text.length - (new.length + 1))
        (Char.ofNat 0) = List.replicate (size - (text ++ new).length) (Char.ofNat 0) := by
      rw [← List.replicate_succ, List.length_append]
      congr 1
      omega
    refine ⟨?_, by rw [List.length_append], by rw [List.length_append]; omega⟩
    rw [List.take_left, Nat.add_assoc, List.drop_length_add_append, List.drop_replicate, htail,
      List.append_assoc]
  · cases heq

theorem formatted_cons (fd : Int) (fds : List Int) :
    formatted (fd :: fds) =
      (if fd < 0 then [] else formatInt fd ++ [' ']) ++ formatted fds := by
  unfold formatted
  by_cases h : fd < 0
  · rw [List.filter_cons_of_neg (by simpa using h), if_pos h, List.nil_append]
  · rw [List.filter_cons_of_pos (by simpa using h), if_neg h, List.flatMap_cons]

/-- The loop keeps the buffer filled, by induction on the answers of `dup`. -/
theorem Filled.formatFds {buf' : List Char} {pos' : Nat} (h : Filled size text buf pos)
    (heq : HeldFds.formatFds size dups buf pos = some (buf', pos')) :
    Filled size (text ++ formatted dups) buf' pos' := by
  induction dups generalizing text buf pos with
  | nil =>
    cases heq
    simpa [formatted] using h
  | cons fd fds ih =>
    rw [HeldFds.formatFds] at heq
    rw [formatted_cons, ← List.append_assoc]
    by_cases hneg : fd < 0
    · rw [if_pos hneg] at heq ⊢
      rw [List.append_nil]
      exact ih h heq
    · rw [if_neg hneg] at heq ⊢
      cases hs : InitService.snprintfS buf pos (size - pos) (size - 1) (formatInt fd ++ [' ']) with
      | none => simp [hs] at heq
      | some r =>
        simp only [hs] at heq
        exact ih (h.snprintfS hs) heq

/-- Where no `dup` succeeds, nothing is formatted. -/
theorem formatFds_of_forall_neg (h : ∀ fd ∈ dups, fd < 0) :
    HeldFds.formatFds size dups buf pos = some (buf, pos) := by
  induction dups with
  | nil => rfl
  | cons fd fds ih =>
    rw [HeldFds.formatFds, if_pos (h fd List.mem_cons_self)]
    exact ih fun fd hfd => h fd (List.mem_cons_of_mem _ hfd)

/-- The last blank is behind the numbers. -/
theorem flatMap_formatInt {fds : List Int} (hne : fds ≠ []) :
    fds.flatMap (fun fd => formatInt fd ++ [' ']) =
      [' '].intercalate (fds.map formatInt) ++ [' '] := by
  induction fds with
  | nil => exact absurd rfl hne
  | cons fd fds ih =>
    rw [List.flatMap_cons, List.map_cons]
    by_cases hfds : fds = []
    · rw [hfds]
      simp
    · rw [ih hfds, List.intercalate_cons_of_ne_nil (by simpa using hfds)]
      simp

theorem formatted_eq (h : ∃ fd ∈ dups, 0 ≤ fd) : formatted dups = spelled dups ++ [' '] := by
  obtain ⟨fd, hfd, hpos⟩ := h
  refine flatMap_formatInt (List.ne_nil_of_mem (a := fd) ?_)
  exact List.mem_filter.mpr ⟨hfd, by simpa using hpos⟩

theorem mem_intercalate {sep : Char} {parts : List (List Char)} {c : Char}
    (h : c ∈ [sep].intercalate parts) : c = sep ∨ ∃ part ∈ parts, c ∈ part := by
  induction parts with
  | nil => cases h
  | cons part parts ih =>
    by_cases hne : parts = []
    · rw [hne, List.intercalate_singleton] at h
      exact Or.inr ⟨part, List.mem_cons_self, h⟩
    · rw [List.intercalate_cons_of_ne_nil hne, List.mem_append, List.mem_append] at h
      rcases h with (hpart | hsep) | hrest
      · exact Or.inr ⟨part, List.mem_cons_self, hpart⟩
      · exact Or.inl (List.mem_singleton.mp hsep)
      · refine (ih hrest).imp_right ?_
        rintro ⟨part', hpart', hc⟩
        exact ⟨part', List.mem_cons_of_mem _ hpart', hc⟩

theorem ne_nul_of_mem_spelled {c : Char} (h : c ∈ spelled dups) : c ≠ Char.ofNat 0 := by
  rcases mem_intercalate h with rfl | ⟨part, hpart, hc⟩
  · decide
  · obtain ⟨fd, -, rfl⟩ := List.mem_map.mp hpart
    exact ne_nul_of_mem_formatInt hc

/-- Overwriting the last blank leaves the text in front of it. -/
theorem Filled.removeLast (h : Filled size (text ++ [' ']) buf pos)
    (hnul : ∀ c ∈ text, c ≠ Char.ofNat 0) :
    (HeldFds.removeLast buf pos).2 = false ∧
      cString (HeldFds.removeLast buf pos).1 = text := by
  obtain ⟨rfl, rfl, hfits⟩ := h
  have hin : 0 < (text ++ [' ']).length ∧ (text ++ [' ']).length ≤
      ((text ++ [' ']) ++ List.replicate (size - (text ++ [' ']).length) (Char.ofNat 0)).length := by
    simp
  rw [HeldFds.removeLast, if_pos hin]
  refine ⟨rfl, ?_⟩
  have hlast : (text ++ [' ']).length - 1 = text.length := by simp
  dsimp only
  rw [hlast, List.append_assoc, List.set_append_right _ _ (le_refl _), Nat.sub_self]
  exact cString_append_nul hnul _

end Publish

/-- **When the published variable names the duplicates.** `PublishHoldFds` stays inside its buffer
and publishes what it should just in case it returns early, because nothing is held or because the
name of the variable does not fit, or some `dup` succeeds. -/
theorem publishes_iff (k : FdHolder) (name : List Char) (dup : Nat → Int → Int) (setenv : Int)
    (m : HeldFds) :
    Publishes (m.held.mapIdx dup) (m.publishHoldFds k name dup setenv) ↔
      (m.fdCount = 0 ∨ m.fds = none) ∨
        k.maxBufferLen ≤ (k.envFdHoldPrefix ++ name).length ∨
        ∃ fd ∈ m.held.mapIdx dup, 0 ≤ fd := by
  unfold HeldFds.publishHoldFds
  by_cases hearly : m.fdCount = 0 ∨ m.fds = none
  · rw [if_pos hearly]
    exact iff_of_true ⟨rfl, fun _ _ habs => by cases habs⟩ (Or.inl hearly)
  rw [if_neg hearly, or_iff_right hearly]
  by_cases hname : k.maxBufferLen ≤ (k.envFdHoldPrefix ++ name).length
  · rw [sprintfS, if_neg (by omega)]
    exact iff_of_true ⟨rfl, fun _ _ habs => by cases habs⟩ (Or.inl hname)
  rw [sprintfS_eq_some (by omega), or_iff_right hname]
  dsimp only
  have hempty : Filled k.maxFdHolderBuffer []
      (List.replicate k.maxFdHolderBuffer (Char.ofNat 0)) 0 := ⟨by simp, rfl, by simp⟩
  by_cases hdup : ∃ fd ∈ m.held.mapIdx dup, 0 ≤ fd
  · refine iff_of_true ?_ hdup
    split
    · exact ⟨rfl, fun _ _ habs => by cases habs⟩
    · next buf pos heq =>
      have hfilled := hempty.formatFds heq
      rw [List.nil_append, formatted_eq hdup] at hfilled
      obtain ⟨hin, hvalue⟩ := hfilled.removeLast fun c hc => ne_nul_of_mem_spelled hc
      refine ⟨hin, fun _ value hset => ?_⟩
      cases hset
      exact hvalue
  · refine iff_of_false ?_ hdup
    have hall : ∀ fd ∈ m.held.mapIdx dup, fd < 0 := by
      intro fd hfd
      by_contra hpos
      exact hdup ⟨fd, hfd, by omega⟩
    rw [formatFds_of_forall_neg hall]
    rintro ⟨hin, -⟩
    simp [HeldFds.removeLast] at hin

/-- When no descriptor can be duplicated, the byte in front of the buffer is overwritten. -/
theorem publish_without_dup_outside :
    ¬ Publishes (({ fdCount := 1, fds := some [7, 0] } : HeldFds).held.mapIdx fun _ _ => -1)
      (({ fdCount := 1, fds := some [7, 0] } : HeldFds).publishHoldFds
        ⟨128, 64, "OHOS_FD_HOLD_".toList⟩ "hold".toList (fun _ _ => -1) 0) := by
  rintro ⟨hin, -⟩
  exact absurd hin (by decide)

end InitService
