import Mathlib.Logic.Function.Basic
import OpenHarmonyMac.Infra.Transition

/-!
# The driver entry of the display composer

`Bind` creates the host object once, through a static variable, and deletes it when it fails.
`Dispatch` reaches it through the device object, and `Release` only sets the stop flag.

* `sound_iff` — no access to a deleted host, no second deletion and no reference that dangles,
  just in case every `Bind` that has a host also gets a service and a stub
* `bind_after_failed_bind` — the second `Bind` after a failed one
-/

namespace Composer

open Infra

/-- The results of the entry points: `HDF_SUCCESS`, `HDF_FAILURE`, `HDF_ERR_INVALID_PARAM` and
what `SendRequest` returns. -/
inductive DriverRet
  | success
  | failure
  | invalidParam
  | sent (ret : Int)
  deriving DecidableEq, Repr

/-- The static variable of `Bind`, before and after its initialisation. -/
inductive StaticHost
  | uninitialised
  | null
  | host
  deriving DecidableEq, Repr

/-- A `HdfDisplayComposerHost`: whether `ioService` has been filled in, and the stub. -/
structure HdfDisplayComposerHost where
  dispatch : Bool := false
  stub : Option Nat := none
  deriving DecidableEq, Repr

/-- What must not happen to memory. -/
inductive MemoryFault
  | useAfterFree
  | doubleDelete
  | nullStub
  deriving DecidableEq, Repr

/-- The static variable, the memory of the host object, the `service` pointers of the device
objects, the flag `g_stop`, the deletions and the faults. -/
structure ComposerDriver where
  hdfDisplayComposerHost : StaticHost := .uninitialised
  object : Option HdfDisplayComposerHost := none
  service : Nat → Bool := fun _ => false
  gStop : Bool := true
  deletes : Nat := 0
  faults : List MemoryFault := []

/-- A call of an entry point, with the answers of what it calls. -/
inductive DriverEvent
  | bind (deviceObject : Nat) (allocated : Bool) (serviceImpl : Bool) (stub : Option Nat)
  | release (deviceObject : Nat)
  | dispatch (device : Option Nat) (data reply : Bool) (ret : Int)
  deriving DecidableEq, Repr

namespace ComposerDriver

variable {d : ComposerDriver}

/-! ## The entry points -/

/-- A write to the host object. -/
def write (d : ComposerDriver) (f : HdfDisplayComposerHost → HdfDisplayComposerHost) :
    ComposerDriver :=
  match d.object with
  | none => { d with faults := d.faults ++ [.useAfterFree] }
  | some host => { d with object := some (f host) }

/-- `delete hdfDisplayComposerHost`. -/
def delete (d : ComposerDriver) : ComposerDriver :=
  match d.object with
  | none => { d with deletes := d.deletes + 1, faults := d.faults ++ [.doubleDelete] }
  | some _ => { d with deletes := d.deletes + 1, object := none }

/-- The initialisation of the static variable, at the first call. -/
def newHost (d : ComposerDriver) (allocated : Bool) : ComposerDriver :=
  match d.hdfDisplayComposerHost with
  | .uninitialised =>
    if allocated then { d with hdfDisplayComposerHost := .host, object := some {} }
    else { d with hdfDisplayComposerHost := .null }
  | _ => d

/-- `HdfDisplayComposerDriverBind` once there is a host. -/
def bindHost (d : ComposerDriver) (deviceObject : Nat) (serviceImpl : Bool) (stub : Option Nat) :
    DriverRet × ComposerDriver :=
  let d := d.write fun host => { host with dispatch := true }
  if !serviceImpl then (.failure, d.delete)
  else
    let d := d.write fun host => { host with stub := stub }
    if stub.isNone then (.failure, d.delete)
    else (.success, { d with service := Function.update d.service deviceObject true,
                             gStop := false })

/-- `HdfDisplayComposerDriverBind`. -/
def bind (d : ComposerDriver) (deviceObject : Nat) (allocated serviceImpl : Bool)
    (stub : Option Nat) : DriverRet × ComposerDriver :=
  if (d.newHost allocated).hdfDisplayComposerHost = .null then (.failure, d.newHost allocated)
  else (d.newHost allocated).bindHost deviceObject serviceImpl stub

/-- `HdfDisplayComposerDriverRelease`. -/
def release (d : ComposerDriver) : ComposerDriver := { d with gStop := true }

/-- `DisplayComposerDriverDispatch`, where the host of the device is found through its `service`
pointer. -/
def dispatch (d : ComposerDriver) (device : Option Nat) (data reply : Bool) (ret : Int) :
    DriverRet × ComposerDriver :=
  match device with
  | none => (.invalidParam, d)
  | some device =>
    if !data then (.invalidParam, d)
    else if !reply then (.invalidParam, d)
    else if !d.service device || d.gStop then (.failure, d)
    else
      match d.object with
      | none => (.failure, { d with faults := d.faults ++ [.useAfterFree] })
      | some host =>
        match host.stub with
        | none => (.failure, { d with faults := d.faults ++ [.nullStub] })
        | some _ => (.sent ret, d)

/-- The state after a call. -/
def step (d : ComposerDriver) : DriverEvent → ComposerDriver
  | .bind deviceObject allocated serviceImpl stub =>
    (d.bind deviceObject allocated serviceImpl stub).2
  | .release _ => d.release
  | .dispatch device data reply ret => (d.dispatch device data reply ret).2

/-- The driver, from the loading of its library on. -/
def system : System ComposerDriver DriverEvent where
  init d := d = {}
  enabled _ _ := True
  step := step

/-! ## References to the host -/

/-- Nothing bad has happened: no fault, at most one deletion, and no reference to a host that is
not there. -/
structure Sound (d : ComposerDriver) : Prop where
  faults : d.faults = []
  deletes : d.deletes ≤ 1
  static : d.object = none → d.hdfDisplayComposerHost ≠ .host
  service : d.object = none → ∀ deviceObject, d.service deviceObject = false

/-- `Bind` has a host: it was created before, or the first `Bind` finds the memory for it. -/
def HasHost (d : ComposerDriver) (allocated : Bool) : Prop :=
  d.hdfDisplayComposerHost = .host ∨
    d.hdfDisplayComposerHost = .uninitialised ∧ allocated = true

/-- If there is a host for this call of `Bind`, there are a service and a stub, too. -/
def Binds (d : ComposerDriver) : DriverEvent → Prop
  | .bind _ allocated serviceImpl stub =>
    d.HasHost allocated → serviceImpl = true ∧ stub.isSome
  | _ => True

/-- A driver that has never failed to bind: the host is there if anything refers to it, with a
stub once it is bound, and it has not been deleted. -/
structure Bound (d : ComposerDriver) : Prop where
  faults : d.faults = []
  deletes : d.deletes = 0
  object : d.hdfDisplayComposerHost = .host ↔ d.object.isSome
  stub : ∀ deviceObject, d.service deviceObject = true → ∃ host, d.object = some host ∧
    host.stub.isSome

theorem Bound.sound (h : d.Bound) : d.Sound where
  faults := h.faults
  deletes := by rw [h.deletes]; decide
  static ho hs := by
    have hsome := h.object.mp hs
    simp [ho] at hsome
  service ho deviceObject := by
    by_contra hs
    rw [Bool.not_eq_false] at hs
    obtain ⟨host, hhost, -⟩ := h.stub deviceObject hs
    simp [ho] at hhost

theorem bound_init : Bound {} := ⟨rfl, rfl, by decide, by simp⟩

theorem Bound.newHost (h : d.Bound) (allocated : Bool) : (d.newHost allocated).Bound := by
  unfold ComposerDriver.newHost
  split
  · next hu =>
    have hobject : ¬ d.object.isSome := fun ho => by simp [h.object.mpr ho] at hu
    have hservice : ∀ o, ¬ d.service o = true := fun o ho => by
      obtain ⟨host, hhost, -⟩ := h.stub o ho
      exact hobject (by simp [hhost])
    split
    · exact ⟨h.faults, h.deletes, by simp, fun o ho => absurd ho (hservice o)⟩
    · exact ⟨h.faults, h.deletes, by simpa using hobject, h.stub⟩
  · exact h

/-- The initialisation leaves a host or null. -/
theorem newHost_host (d : ComposerDriver) (allocated : Bool) :
    (d.HasHost allocated ∧ (d.newHost allocated).hdfDisplayComposerHost = .host) ∨
      (¬ d.HasHost allocated ∧ (d.newHost allocated).hdfDisplayComposerHost = .null) := by
  unfold ComposerDriver.newHost HasHost
  cases hs : d.hdfDisplayComposerHost with
  | uninitialised => cases allocated <;> simp
  | null => simp [hs]
  | host => simp [hs]

/-- `Bind` with a live host: a failure deletes it, and the static variable still refers to it. -/
theorem bindHost_spec (h : d.Bound) (hh : d.hdfDisplayComposerHost = .host) (deviceObject : Nat)
    (serviceImpl : Bool) (stub : Option Nat) :
    (serviceImpl = true ∧ stub.isSome → (d.bindHost deviceObject serviceImpl stub).2.Bound) ∧
      (¬ (serviceImpl = true ∧ stub.isSome) →
        ¬ (d.bindHost deviceObject serviceImpl stub).2.Sound) := by
  obtain ⟨host, hhost⟩ := Option.isSome_iff_exists.mp (h.object.mp hh)
  constructor
  · rintro ⟨rfl, hstub⟩
    have hnone : stub.isNone = false := by simpa using hstub
    simp only [bindHost, write, hhost, hnone, Bool.not_true, Bool.false_eq_true, if_false]
    exact ⟨h.faults, h.deletes, by simp [hh], fun o _ => ⟨_, rfl, hstub⟩⟩
  · intro hfail hsound
    cases serviceImpl with
    | false =>
      refine hsound.static ?_ ?_
      · simp [bindHost, write, delete, hhost]
      · simp [bindHost, write, delete, hhost, hh]
    | true =>
      have hnone : stub = none := by simpa using hfail
      subst hnone
      refine hsound.static ?_ ?_
      · simp [bindHost, write, delete, hhost]
      · simp [bindHost, write, delete, hhost, hh]

/-- `Dispatch` changes nothing: the host of a device that is bound is there, with its stub. -/
theorem Bound.dispatch (h : d.Bound) (device : Option Nat) (data reply : Bool) (ret : Int) :
    (d.dispatch device data reply ret).2 = d := by
  unfold ComposerDriver.dispatch
  cases device with
  | none => rfl
  | some device =>
    dsimp only
    by_cases hservice : d.service device = true
    · obtain ⟨host, hhost, hstub⟩ := h.stub device hservice
      obtain ⟨stub, hstub⟩ := Option.isSome_iff_exists.mp hstub
      simp only [hhost, hstub]
      repeat' split
      all_goals rfl
    · rw [Bool.not_eq_true] at hservice
      simp only [hservice, Bool.not_false, Bool.true_or, if_true]
      split
      · rfl
      · split <;> rfl

/-- **A call keeps the references sound just in case it is not a `Bind` with a host that fails.** -/
theorem bound_step (h : d.Bound) (e : DriverEvent) :
    (d.Binds e → (d.step e).Bound) ∧ (¬ d.Binds e → ¬ (d.step e).Sound) := by
  cases e with
  | release o =>
    exact ⟨fun _ => ⟨h.faults, h.deletes, h.object, h.stub⟩, fun hn => absurd trivial hn⟩
  | dispatch device data reply ret =>
    refine ⟨fun _ => ?_, fun hn => absurd trivial hn⟩
    show (d.dispatch device data reply ret).2.Bound
    rw [h.dispatch]
    exact h
  | bind deviceObject allocated serviceImpl stub =>
    have hnew := h.newHost allocated
    show (_ → (d.bind deviceObject allocated serviceImpl stub).2.Bound) ∧
      (_ → ¬ (d.bind deviceObject allocated serviceImpl stub).2.Sound)
    unfold bind
    rcases d.newHost_host allocated with ⟨hhas, hh⟩ | ⟨hhas, hnull⟩
    · rw [if_neg (by simp [hh])]
      obtain ⟨hok, hfail⟩ := bindHost_spec hnew hh deviceObject serviceImpl stub
      exact ⟨fun hb => hok (hb hhas), fun hn => hfail fun hc => hn fun _ => hc⟩
    · rw [if_pos hnull]
      exact ⟨fun _ => hnew, fun hn => absurd (fun hh => absurd hh hhas) hn⟩

theorem sound_step_iff (h : d.Bound) (e : DriverEvent) : (d.step e).Sound ↔ d.Binds e :=
  ⟨fun hs => of_not_not fun hn => (bound_step h e).2 hn hs, fun hb => ((bound_step h e).1 hb).sound⟩

/-- **All accesses and references of a run are sound just in case each `Bind` of it for which there
is a host gets a service and a stub.** -/
theorem sound_iff {es : List DriverEvent} {t : ComposerDriver} :
    (system.restrict fun d e => (d.step e).Sound).Run {} es t ↔
      (system.restrict Binds).Run {} es t :=
  System.Run.restrict_congr (fun _ e hd _ => sound_step_iff hd e)
    (fun _ e hd _ hs => (bound_step hd e).1 ((sound_step_iff hd e).mp hs)) bound_init

/-! ## A second `Bind` -/

/-- The first `Bind` gets no service, and the second one writes to the host that the first one has
deleted, and deletes it again. -/
theorem bind_after_failed_bind : ∃ es, system.Run {} es (es.foldl step {}) ∧
    es = [.bind 0 true false none, .bind 0 true false none] ∧
    (es.foldl step {}).faults = [.useAfterFree, .doubleDelete] ∧
    ¬ (system.restrict fun d e => (d.step e).Sound).Run {} es (es.foldl step {}) := by
  refine ⟨_, .cons trivial (.cons trivial (.nil _)), rfl, by decide, fun hr => ?_⟩
  cases hr with
  | cons h _ => exact h.2.static (by decide) (by decide)

end ComposerDriver

end Composer
