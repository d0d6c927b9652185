import OpenHarmonyMac.Composer.Service

/-!
# The callbacks that the VDI holds

The VDI keeps a raw pointer for each device, and the service keeps one reference for all of them.

* `retained_iff` — each registered callback stays referenced just in case a callback is only
  registered while no other device has a different one
* `second_device_releases_first` — two devices with two callbacks
-/

namespace Composer

open Infra

variable {p : Platform} {s t : DisplayComposerService}

namespace DisplayComposerService

/-- Every callback that the VDI has registered for a device is referenced by the service. -/
def Retained (s : DisplayComposerService) : Prop :=
  ∀ devId cb, s.registered devId = some cb → s.vBlankCb = some cb

/-- After the event the registered callbacks are referenced, and if it is a vblank, the callback
that is called is. -/
def Referenced (p : Platform) (s : DisplayComposerService) (e : Event) : Prop :=
  Retained (s.step p e) ∧
    ∀ devId, e = .onVBlank devId → ∀ reply t, e.serve p s = .ok (reply, t) →
      ∀ cb ∈ reply.called, s.vBlankCb = some cb

/-- If the VDI takes a registration, no other device has another callback. -/
def OneCallback (s : DisplayComposerService) (e : Event) : Prop :=
  ∀ devId cb ret, e = .regDisplayVBlankCallback devId cb ret →
    s.VdiTakes .regDisplayVBlankCallback ret →
      ∀ other ≠ devId, ∀ cb', s.registered other = some cb' → cb = some cb'

/-! ## The steps -/

theorem step_reg_of_takes {devId : DevId} {cb : Option Callback} {ret : Code}
    (h : s.VdiTakes .regDisplayVBlankCallback ret) :
    s.step p (.regDisplayVBlankCallback devId cb ret) = s.vBlankRegistered devId cb := by
  have hserve : s.regDisplayVBlankCallback devId cb ret = _ := withAdapter_of_takes h _
  rw [if_pos h.1] at hserve
  simp only [step, Event.serve, hserve]

theorem step_reg_of_not_takes {devId : DevId} {cb : Option Callback} {ret : Code}
    (h : ¬ s.VdiTakes .regDisplayVBlankCallback ret) :
    s.step p (.regDisplayVBlankCallback devId cb ret) = s := by
  refine step_of_reaches (state_of_not_takes h fun hret => ?_)
  rw [if_neg hret]
  exact reaches_same _

/-- The other events neither register a callback nor drop the reference. -/
theorem vblank_step {e : Event}
    (he : ∀ devId cb ret, e ≠ .regDisplayVBlankCallback devId cb ret) :
    (s.step p e).registered = s.registered ∧ (s.step p e).vBlankCb = s.vBlankCb := by
  let Same (t : DisplayComposerService) : Prop :=
    t.registered = s.registered ∧ t.vBlankCb = s.vBlankCb
  have hself : Same s := ⟨rfl, rfl⟩
  show Same (s.step p e)
  rcases step_cases p s e with h | h
  · rw [h]
    exact hself
  · rw [h]
    cases e with
    | regDisplayVBlankCallback devId cb ret => exact absurd rfl (he devId cb ret)
    | createLayer devId layerId ret cached =>
      have hvdi : Same (s.layerCreated devId layerId) := ⟨rfl, rfl⟩
      refine withDeviceCache_induction hvdi fun caches cache => ?_
      split <;> exact hvdi
    | destroyLayer devId layerId ret cached =>
      have hvdi : Same (s.layerDestroyed devId layerId) := ⟨rfl, rfl⟩
      refine withDeviceCache_induction hvdi fun caches cache => ?_
      split <;> exact hvdi
    | onHotPlug outputId connected ret =>
      show Same (s.step p (.onHotPlug outputId connected ret))
      cases hc : s.cacheMgr with
      | none => simpa [step, Event.serve, onHotPlug, hc] using hself
      | some caches =>
        simp only [step, Event.serve, onHotPlug, hc]
        split <;> exact hself
    | _ => exact hself

/-- **A step keeps the registered callbacks referenced just in case it registers no callback that
another device does not have.** -/
theorem retained_step_iff {e : Event} (hs : s.Retained) :
    (s.step p e).Retained ↔ s.OneCallback e := by
  by_cases hreg : ∃ devId cb ret, e = .regDisplayVBlankCallback devId cb ret
  · obtain ⟨devId, cb, ret, rfl⟩ := hreg
    by_cases htakes : s.VdiTakes .regDisplayVBlankCallback ret
    · rw [step_reg_of_takes htakes]
      constructor
      · rintro h devId' cb₁ ret' he - other hother cb' hcb'
        cases he
        refine h other cb' ?_
        rw [vBlankRegistered_registered, Function.update_of_ne hother, hcb']
      · intro h other cb' hcb'
        rw [vBlankRegistered_registered] at hcb'
        rw [vBlankRegistered_vBlankCb]
        by_cases hother : other = devId
        · subst hother
          rwa [Function.update_self] at hcb'
        · rw [Function.update_of_ne hother] at hcb'
          exact h devId cb ret rfl htakes other hother cb' hcb'
    · rw [step_reg_of_not_takes htakes]
      refine iff_of_true hs fun devId' cb₁ ret' he htakes' => ?_
      cases he
      exact absurd htakes' htakes
  · have hne : ∀ devId cb ret, e ≠ .regDisplayVBlankCallback devId cb ret :=
      fun devId cb ret he => hreg ⟨devId, cb, ret, he⟩
    obtain ⟨hregistered, hcb⟩ := vblank_step hne
    refine iff_of_true ?_ fun devId cb ret he => absurd he (hne devId cb ret)
    unfold Retained
    rw [hregistered, hcb]
    exact hs

/-- `OnVBlank` is called with a pointer that the VDI has. -/
theorem Retained.onVBlank (hs : s.Retained) {devId : DevId} {reply : Reply}
    (h : s.onVBlank devId = .ok (reply, t)) : ∀ cb ∈ reply.called, s.vBlankCb = some cb := by
  intro cb hcb
  cases h
  exact hs devId cb hcb

theorem referenced_step_iff {e : Event} (hs : s.Retained) :
    s.Referenced p e ↔ s.OneCallback e := by
  rw [← @retained_step_iff p s e hs]
  refine ⟨fun h => h.1, fun h => ⟨h, ?_⟩⟩
  rintro devId rfl reply t ht
  exact hs.onVBlank ht

theorem registered_loadVdiAdapter (p : Platform) (s : DisplayComposerService) :
    (s.loadVdiAdapter p).2.registered = s.registered := by
  unfold loadVdiAdapter
  split <;> rfl

theorem registered_createResponser (o : Construction) (s : DisplayComposerService) :
    (s.createResponser o).2.registered = s.registered := by
  unfold createResponser
  dsimp only
  split
  · rfl
  · split
    · rfl
    · split <;> rfl

/-- The VDI has no callback when the constructor returns. -/
theorem registered_construct (p : Platform) (o : Construction) :
    (construct p o).registered = fun _ => none := by
  unfold construct
  generalize hs₀ : ({ vdiAdapter := if o.adapterAllocated then some fun _ => .unset else none } :
    DisplayComposerService) = s₀
  have hadapter : ((s₀.loadVdiSo p o).2.loadVdiAdapter p).2.registered = fun _ => none := by
    rw [registered_loadVdiAdapter, ← hs₀]
    rfl
  dsimp only
  split
  · rw [← hs₀]
    rfl
  · split
    · exact hadapter
    · split
      · exact (registered_createResponser o _).trans hadapter
      · exact (registered_createResponser o _).trans hadapter

theorem retained_construct (p : Platform) (o : Construction) : (construct p o).Retained := by
  intro devId cb h
  rw [registered_construct] at h
  cases h

/-- **Every callback that the VDI holds stays referenced, and every vblank is delivered to a
referenced one, just in case each registration that the VDI takes finds no other device with
another callback.** -/
theorem retained_iff {es : List Event} (hi : (service p).init s) :
    ((service p).restrict (Referenced p)).Run s es t ↔
      ((service p).restrict OneCallback).Run s es t := by
  obtain ⟨o, rfl⟩ := hi
  exact System.Run.restrict_congr (fun u e hu _ => referenced_step_iff hu) (fun u e _ _ h => h.1)
    (retained_construct p o)

/-! ## Two devices -/

/-- A platform without a default library. -/
def samplePlatform : Platform := { defaultLibraryEnable := false, unsetIsNull := fun _ => true }

/-- A service with all functions of its library. -/
def sampleService : DisplayComposerService :=
  construct samplePlatform { vdiLibrary := some fun _ => true }

/-- The service after these events. -/
def sampleRun (es : List Event) : DisplayComposerService :=
  es.foldl (step samplePlatform) sampleService

/-- The same callback for two devices, and a vblank of the first one. -/
def oneCallbackRun : List Event :=
  [.regDisplayVBlankCallback 0 (some 1) .success, .regDisplayVBlankCallback 1 (some 1) .success,
    .onVBlank 0]

theorem registered_sampleService : sampleService.registered = fun _ => none :=
  registered_construct _ _

theorem sampleService_takes : sampleService.VdiTakes .regDisplayVBlankCallback .success :=
  ⟨rfl, _, rfl, by decide⟩

theorem retained_iff_run : (sampleRun oneCallbackRun).vBlankCb = some 1 ∧
    ((service samplePlatform).restrict (Referenced samplePlatform)).Run sampleService
      oneCallbackRun (sampleRun oneCallbackRun) := by
  have hi : (service samplePlatform).init sampleService := ⟨_, rfl⟩
  refine ⟨by decide +kernel, (retained_iff hi).mpr ?_⟩
  refine .cons ⟨by rintro f ⟨⟩, ?_⟩ (.cons ⟨by rintro f ⟨⟩, ?_⟩
    (.cons ⟨by rintro f ⟨⟩, by rintro devId cb ret ⟨⟩⟩ (.nil _)))
  · rintro devId cb ret - - other - cb' hcb'
    rw [registered_sampleService] at hcb'
    cases hcb'
  · rintro devId cb ret ⟨⟩ - other - cb' hcb'
    -- Only device 0 is registered, with the same callback.
    have hstep := @step_reg_of_takes samplePlatform _ 0 (some 1) _ sampleService_takes
    change (sampleService.step samplePlatform
      (.regDisplayVBlankCallback 0 (some 1) .success)).registered other = some cb' at hcb'
    rw [hstep, vBlankRegistered_registered, registered_sampleService] at hcb'
    by_cases hother : other = 0
    · rwa [hother, Function.update_self] at hcb'
    · rw [Function.update_of_ne hother] at hcb'
      cases hcb'

/-- A second device with another callback leaves the first one without a reference. -/
theorem second_device_releases_first : ∃ es, (service samplePlatform).init sampleService ∧
    (service samplePlatform).Run sampleService es (sampleRun es) ∧
    es = [.regDisplayVBlankCallback 0 (some 1) .success,
      .regDisplayVBlankCallback 1 (some 2) .success] ∧
    (sampleRun es).registered 0 = some 1 ∧ (sampleRun es).vBlankCb = some 2 := by
  refine ⟨_, ⟨_, rfl⟩, ?_, rfl, by decide +kernel, by decide +kernel⟩
  exact .cons (by rintro f ⟨⟩) (.cons (by rintro f ⟨⟩) (.nil _))

end DisplayComposerService

end Composer
