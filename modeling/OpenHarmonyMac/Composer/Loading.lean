import OpenHarmonyMac.Composer.Service

/-!
# The functions that the service calls

`LoadVdiAdapter` refuses a library without one of the mandatory functions, and the operations check
the optional ones. The constructor gives up an adapter that could not be loaded, except when there
is no library at all.

* `never_calls_missing_iff` — the service never calls a missing function just in case there was
  no memory for the adapter or a library was opened
* `calls_missing_without_library` — without a library the adapter stays, with nothing loaded
-/

namespace Composer

open Infra

variable {p : Platform} {o : Construction} {s t : DisplayComposerService}

/-! ## Adapters that are ready -/

/-- The mandatory functions of the adapter are loaded, and the optional ones at least looked up. -/
structure VdiAdapter.Ready (a : VdiAdapter) : Prop where
  mandatory : ∀ f ∈ mandatoryFuncs, a f = .loaded
  looked : ∀ f, a f ≠ .unset

theorem VdiAdapter.Ready.loaded {a : VdiAdapter} (h : a.Ready) {f : VdiFn}
    (hf : f ∈ mandatoryFuncs ∨ a.isNull p f = false) : a f = .loaded := by
  rcases hf with hf | hf
  · exact h.mandatory f hf
  · unfold VdiAdapter.isNull at hf
    cases hp : a f with
    | unset => exact absurd hp (h.looked f)
    | null => simp [hp] at hf
    | loaded => rfl

/-- `dlsym` leaves none of its pointers as they were. -/
theorem VdiAdapter.load_ne_unset (lib : VdiLibrary) {f : VdiFn} :
    ∀ (fs : List VdiFn) (a : VdiAdapter), f ∈ fs ∨ a f ≠ .unset → a.load lib fs f ≠ .unset := by
  intro fs
  induction fs with
  | nil =>
    rintro a (h | h)
    · cases h
    · exact h
  | cons g fs ih =>
    intro a h
    rw [load, List.foldl_cons]
    refine ih _ ?_
    by_cases hg : f = g
    · subst hg
      right
      rw [Function.update_self]
      split <;> simp
    · rw [List.mem_cons, or_iff_right hg] at h
      rw [Function.update_of_ne hg]
      exact h

/-- Each pointer of the adapter is loaded by one of the three parts. -/
theorem mem_vdiFuncParts (f : VdiFn) :
    f ∈ vdiFuncPart3 ∨ f ∈ vdiFuncPart2 ∨ f ∈ vdiFuncPart1 := by
  cases f <;> decide

/-- The adapter and the responser of the service, if there are any, are ready. -/
structure DisplayComposerService.Sound (s : DisplayComposerService) : Prop where
  adapter : ∀ a ∈ s.vdiAdapter, a.Ready
  responser : ∀ a ∈ s.cmdResponser, a.Ready

/-! ## The constructor -/

namespace DisplayComposerService

theorem sound_of_none (ha : s.vdiAdapter = none) (hr : s.cmdResponser = none) : s.Sound where
  adapter := by simp [ha]
  responser := by simp [hr]

/-- A successful `LoadVdiAdapter` leaves a ready adapter. -/
theorem ready_of_loadVdiAdapter (h : (s.loadVdiAdapter p).1 = .success) :
    (∃ a : VdiAdapter, a.Ready ∧ (s.loadVdiAdapter p).2.vdiAdapter = some a) ∧
      (s.loadVdiAdapter p).2.cmdResponser = s.cmdResponser := by
  revert h
  unfold loadVdiAdapter
  split
  · next a lib ha hlib =>
    intro h
    refine ⟨⟨_, ?_, rfl⟩, rfl⟩
    have hunset : ∀ f, (((a.load lib vdiFuncPart1).load lib vdiFuncPart2).load lib vdiFuncPart3)
        f ≠ .unset := by
      intro f
      refine VdiAdapter.load_ne_unset lib _ _ ?_
      rcases mem_vdiFuncParts f with hf | hf | hf
      · exact .inl hf
      · exact .inr (VdiAdapter.load_ne_unset lib _ _ (.inl hf))
      · exact .inr (VdiAdapter.load_ne_unset lib _ _
          (.inr (VdiAdapter.load_ne_unset lib _ _ (.inl hf))))
    refine ⟨fun f hf => ?_, hunset⟩
    have hnull : ¬ (mandatoryFuncs.any ((((a.load lib vdiFuncPart1).load lib
        vdiFuncPart2).load lib vdiFuncPart3).isNull p)) = true := by
      intro hany
      simp [hany] at h
    have hf' := mt (fun hn => List.any_eq_true.mpr ⟨f, hf, hn⟩) hnull
    rw [Bool.not_eq_true] at hf'
    unfold VdiAdapter.isNull at hf'
    split at hf'
    · next hu => exact absurd hu (hunset f)
    · cases hf'
    · assumption
  · simp

/-- `CreateResponser` gives the adapter to the responser, and keeps both if it fails. -/
theorem createResponser_spec : (s.createResponser o).2.vdiAdapter = s.vdiAdapter ∧
    (((s.createResponser o).1 = .success ∧
        (s.createResponser o).2.cmdResponser = s.vdiAdapter) ∨
      ((s.createResponser o).1 ≠ .success ∧
        (s.createResponser o).2.cmdResponser = s.cmdResponser)) := by
  unfold createResponser
  simp only
  split
  · simp
  · split
    · next ha => simp [ha]
    · next a ha => split <;> simp [ha]

/-- The constructor without a library leaves the adapter as it was allocated. -/
theorem construct_of_no_library (h : o.library p = none) :
    (construct p o).vdiAdapter = if o.adapterAllocated then some fun _ => .unset else none := by
  simp [construct, loadVdiSo, h]

/-- With a library, or without memory for the adapter, the constructor leaves nothing unloaded. -/
theorem sound_construct (h : o.adapterAllocated = false ∨ (o.library p).isSome) :
    (construct p o).Sound := by
  unfold construct
  generalize hs₀ : ({ vdiAdapter := if o.adapterAllocated then some fun _ => .unset else none } :
    DisplayComposerService) = s₀
  have hresp : s₀.cmdResponser = none := by rw [← hs₀]
  dsimp only
  split
  · next hso =>
    rcases h with h | h
    · exact sound_of_none (by simp [loadVdiSo, ← hs₀, h]) hresp
    · obtain ⟨lib, hlib⟩ := Option.isSome_iff_exists.mp h
      simp [loadVdiSo, hlib] at hso
  · split
    · exact sound_of_none rfl (by unfold loadVdiAdapter exitService; split <;> exact hresp)
    · next hload =>
      obtain ⟨⟨a, ha, hs⟩, hr⟩ := ready_of_loadVdiAdapter (not_not.mp hload)
      obtain ⟨hadapter, hcreated⟩ := @createResponser_spec o ((s₀.loadVdiSo p o).2.loadVdiAdapter p).2
      split
      · next hfail =>
        have hnone := (hcreated.resolve_left fun h => hfail h.1).2
        exact sound_of_none rfl (hnone.trans (hr.trans hresp))
      · next hsucc =>
        have hsome := (hcreated.resolve_right fun h => hsucc h.1).2
        exact ⟨by rw [hadapter, hs]; simpa using ha, by rw [hsome, hs]; simpa using ha⟩

/-! ## The operations -/

/-- The same adapter and responser. -/
def SameAdapter (s t : DisplayComposerService) : Prop :=
  t.vdiAdapter = s.vdiAdapter ∧ t.cmdResponser = s.cmdResponser

theorem SameAdapter.sound (h : s.SameAdapter t) (hs : s.Sound) : t.Sound :=
  ⟨h.1 ▸ hs.adapter, h.2 ▸ hs.responser⟩

/-- No event changes the adapter. -/
theorem sameAdapter_step (p : Platform) (s : DisplayComposerService) (e : Event) :
    s.SameAdapter (s.step p e) := by
  have hself : s.SameAdapter s := ⟨rfl, rfl⟩
  rcases step_cases p s e with h | h
  · rw [h]
    exact hself
  · rw [h]
    cases e with
    | createLayer devId layerId ret cached =>
      have hvdi : s.SameAdapter (s.layerCreated devId layerId) := ⟨rfl, rfl⟩
      refine withDeviceCache_induction hvdi fun caches cache => ?_
      split <;> exact hvdi
    | destroyLayer devId layerId ret cached =>
      have hvdi : s.SameAdapter (s.layerDestroyed devId layerId) := ⟨rfl, rfl⟩
      refine withDeviceCache_induction hvdi fun caches cache => ?_
      split <;> exact hvdi
    | onHotPlug outputId connected ret =>
      show s.SameAdapter (s.step p (.onHotPlug outputId connected ret))
      cases hc : s.cacheMgr with
      | none => simpa [step, Event.serve, onHotPlug, hc] using hself
      | some caches =>
        simp only [step, Event.serve, onHotPlug, hc]
        split <;> exact hself
    | _ => exact hself

/-- The outcome is an answer. -/
def Served (r : Outcome) : Prop := ∃ reply t, r = .ok (reply, t)

theorem served_ok (r : Reply × DisplayComposerService) : Served (.ok r) := ⟨r.1, r.2, rfl⟩

theorem served_callVdi {a : VdiAdapter} {f : VdiFn} {k : Outcome} (hf : a f = .loaded)
    (hk : Served k) : Served (callVdi a f k) := by
  rw [callVdi, if_pos hf]
  exact hk

theorem served_withAdapter {k : VdiAdapter → Outcome} (hk : ∀ a ∈ s.vdiAdapter, Served (k a)) :
    Served (s.withAdapter k) := by
  unfold withAdapter
  split
  · exact served_ok _
  · next a ha => exact hk a ha

/-- An operation that calls a mandatory function of its adapter. -/
theorem served_mandatory (hs : s.Sound) {f : VdiFn} (hf : f ∈ mandatoryFuncs) {k : Outcome}
    (hk : Served k) : Served (s.withAdapter fun a => callVdi a f k) :=
  served_withAdapter fun a ha => served_callVdi ((hs.adapter a ha).mandatory f hf) hk

/-- An operation on an optional function does not call it without having seen it. -/
theorem served_optionalOp (hs : s.Sound) (f : VdiFn) (chk : Code → Code) (ret : Code) :
    Served (s.optionalOp p f chk ret t) := by
  refine served_withAdapter fun a ha => ?_
  split
  · exact served_ok _
  · next hnull =>
    rw [Bool.not_eq_true] at hnull
    exact served_callVdi ((hs.adapter a ha).loaded (.inr hnull)) (served_ok _)

/-- The responser calls what it has checked. -/
theorem served_withResponser (hs : s.Sound) {calls : List VdiFn} (ret : Code)
    (hc : ∀ f ∈ calls, f ∈ mandatoryFuncs ∨ ∀ a ∈ s.cmdResponser, a.isNull p f = false) :
    Served (s.withResponser calls ret) := by
  unfold withResponser
  split
  · exact served_ok _
  · next a ha =>
    -- The calls are made one after the other, each on the same adapter.
    induction calls with
    | nil => exact served_ok _
    | cons f calls ih =>
      refine served_callVdi ?_ (ih fun g hg => hc g (List.mem_cons_of_mem _ hg))
      exact (hs.responser a ha).loaded ((hc f List.mem_cons_self).imp_right fun h => h a ha)

/-- **Every event is served without a missing function when the adapter is ready.** -/
theorem served_of_sound (hs : s.Sound) {e : Event} (he : e.Checked p s) :
    Served (e.serve p s) := by
  cases e with
  | getDisplayCapability | getDisplaySupportedModes | getDisplayMode | setDisplayMode
  | getDisplayPowerStatus | setDisplayPowerStatus | getDisplayProperty | setDisplayClientCrop
  | setDisplayVsyncEnabled | createVirtualDisplay | destroyVirtualDisplay | setDisplayProperty
  | regHotPlugCallback | setDisplayBacklight | regDisplayVBlankCallback
  | getDisplayReleaseFence => exact served_mandatory hs (by decide) (served_ok _)
  | getDisplayBacklight level ret =>
    refine served_mandatory hs (by decide) ?_
    split <;> exact served_ok _
  | createLayer devId layerId ret cached =>
    refine served_mandatory hs (by decide) ?_
    split <;> exact served_ok _
  | destroyLayer devId layerId ret cached =>
    refine served_mandatory hs (by decide) ?_
    split <;> exact served_ok _
  | setVirtualDisplayBuffer buffer fence handle ret =>
    show Served (s.setVirtualDisplayBuffer buffer fence handle ret)
    unfold setVirtualDisplayBuffer
    split
    · exact served_ok _
    · refine served_withAdapter fun a ha => ?_
      split
      · exact served_ok _
      · exact served_callVdi ((hs.adapter a ha).mandatory _ (by decide)) (served_ok _)
  | setHardwareCursorPosition | enableHardwareCursorStats | getHardwareCursorStats
  | getDisplaySupportedModesExt | getDisplayVBlankPeriod | setLayerPerFrameParameter
  | getSupportedLayerPerFrameParameterKey | setDisplayOverlayResolution
  | getDisplaySupportedColorGamuts | getHDRCapabilityInfos | setDisplayActiveRegion
  | regDisplayVBlankIdleCallback | regSeamlessChangeCallback | setDisplayModeAsync
  | regRefreshCallback => exact served_optionalOp hs _ _ _
  | setClientBufferCacheCount => exact served_withAdapter fun _ _ => served_ok _
  | clearClientBuffer | clearLayerBuffer | onVBlank => exact served_ok _
  | initCmdRequest request calls ret =>
    show Served (s.initCmdRequest request calls ret)
    unfold initCmdRequest
    split
    · exact served_ok _
    · exact served_withResponser hs ret he
  | cmdRequest calls ret | getCmdReply calls ret => exact served_withResponser hs ret he
  | onHotPlug outputId connected ret =>
    show Served (s.onHotPlug outputId connected ret)
    unfold onHotPlug
    split <;> exact served_ok _

end DisplayComposerService

/-! ## The constructor and what comes after it -/

/-- The event is served, and all the functions that it calls are there. -/
def CallsLoaded (p : Platform) (s : DisplayComposerService) (e : Event) : Prop :=
  ∃ reply t, e.serve p s = .ok (reply, t)

/-- There is no adapter, or all its mandatory functions are loaded. -/
def MandatoryLoaded (s : DisplayComposerService) : Prop :=
  ∀ a ∈ s.vdiAdapter, ∀ f ∈ mandatoryFuncs, a f = .loaded

/-- What the service is to keep: the invariant of its constructor, and no call of a missing
function in any run. -/
def NeverCallsMissing (p : Platform) (s : DisplayComposerService) : Prop :=
  MandatoryLoaded s ∧
    ∀ es t, (service p).Run s es t → ((service p).restrict (CallsLoaded p)).Run s es t

theorem never_calls_missing_of_sound (hs : s.Sound) : NeverCallsMissing p s :=
  ⟨fun a ha => (hs.adapter a ha).mandatory, fun _ _ hr =>
    hr.restrict_of_invariant (fun u e hu he => ⟨DisplayComposerService.served_of_sound hu he,
      (DisplayComposerService.sameAdapter_step p u e).sound hu⟩) hs⟩

/-- **The service never calls a missing function just in case there was no memory for the adapter
or `LoadVdiSo` opened a library.** -/
theorem never_calls_missing_iff (p : Platform) (o : Construction) :
    NeverCallsMissing p (DisplayComposerService.construct p o) ↔
      o.adapterAllocated = false ∨ (o.library p).isSome := by
  constructor
  · rintro ⟨hloaded, -⟩
    by_contra h
    obtain ⟨halloc, hlib⟩ := not_or.mp h
    rw [Bool.not_eq_false] at halloc
    rw [Option.not_isSome_iff_eq_none] at hlib
    have ha := DisplayComposerService.construct_of_no_library hlib
    rw [if_pos halloc] at ha
    exact absurd (hloaded _ ha .commit (by decide)) (by decide)
  · intro h
    exact never_calls_missing_of_sound (DisplayComposerService.sound_construct h)

/-- Without a library, the first operation of a client calls a null pointer. -/
theorem calls_missing_without_library :
    let p : Platform := { defaultLibraryEnable := false, unsetIsNull := fun _ => true }
    let s := DisplayComposerService.construct p {}
    ¬ MandatoryLoaded s ∧
      s.getDisplayCapability .success = .error .getDisplayCapability ∧ ¬ NeverCallsMissing p s := by
  refine ⟨?_, rfl, ?_⟩
  · intro h
    exact absurd (h _ rfl .commit (by decide)) (by decide)
  · rintro ⟨h, -⟩
    exact absurd (h _ rfl .commit (by decide)) (by decide)

end Composer
