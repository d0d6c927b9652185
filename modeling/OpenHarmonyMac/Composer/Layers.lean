import OpenHarmonyMac.Composer.Service

/-!
# The layers of the VDI and of the device caches

`CreateLayer` and `DestroyLayer` call the VDI first and the device cache second, and a failure of
the second half does not take the first one back.

* `layers_agree_iff` — both sets stay equal, and as they were after a failure, just in case the
  cache follows each change of the VDI
* `layer_without_cache` — a layer created for a device without a cache
-/

namespace Composer

open Infra

variable {p : Platform} {s t : DisplayComposerService}

namespace DisplayComposerService

/-- The cache of a device, if there is a cache manager and it has one. -/
def deviceCache (s : DisplayComposerService) (devId : DevId) : Option DeviceCache :=
  s.cacheMgr.bind fun caches => caches devId

/-- The layers recorded for a device. -/
def recorded (s : DisplayComposerService) (devId : DevId) : Finset LayerId :=
  ((s.deviceCache devId).map DeviceCache.layers).getD ∅

/-- For every device, the layers of the VDI are the recorded ones. -/
def LayersAgree (s : DisplayComposerService) : Prop :=
  ∀ devId, s.vdiLayers devId = s.recorded devId

/-- The same layers in the VDI and in the caches. -/
def SameLayers (s t : DisplayComposerService) : Prop :=
  t.vdiLayers = s.vdiLayers ∧ t.recorded = s.recorded

/-- After the event the sets agree, and if it fails, they are as before. -/
def LayersKept (p : Platform) (s : DisplayComposerService) (e : Event) : Prop :=
  LayersAgree (s.step p e) ∧
    ∀ reply t, e.serve p s = .ok (reply, t) → reply.code ≠ .success → s.SameLayers t

/-- The second half of an operation takes place: the device has a cache, and the cache takes the
change. -/
def CacheTakes (s : DisplayComposerService) (devId : DevId) (cached : Code) : Prop :=
  cached = .success ∧ (s.deviceCache devId).isSome

/-- The cache follows: when the VDI creates a layer that it did not have, or destroys one that it
had, the cache of the device takes the change. -/
def CacheFollows (s : DisplayComposerService) : Event → Prop
  | .createLayer devId layerId ret cached => s.VdiTakes .createLayer ret →
      layerId ∉ s.vdiLayers devId → s.CacheTakes devId cached
  | .destroyLayer devId layerId ret cached => s.VdiTakes .destroyLayer ret →
      layerId ∈ s.vdiLayers devId → s.CacheTakes devId cached
  | _ => True

/-! ## A change of both stores -/

/-- The VDI has changed the layers of a device. -/
def editVdi (s : DisplayComposerService) (devId : DevId)
    (edit : Finset LayerId → Finset LayerId) : DisplayComposerService :=
  { s with vdiLayers := Function.update s.vdiLayers devId (edit (s.vdiLayers devId)) }

/-- The change of a cache: `AddLayerCache` inserts a layer, and `RemoveLayerCache` erases one. -/
def editCache (s : DisplayComposerService) (devId : DevId) (reply : Reply)
    (edit : Finset LayerId → Finset LayerId) : Reply × DisplayComposerService :=
  s.withDeviceCache devId fun caches cache =>
    (reply, if reply.code = .success then
      s.setDeviceCache caches devId { cache with layers := edit cache.layers }
    else s)

theorem serve_createLayer (devId : DevId) (layerId : LayerId) (ret cached : Code) :
    (Event.createLayer devId layerId ret cached).serve p s =
      s.withAdapter fun a => callVdi a .createLayer
        (if ret ≠ .success then .ok ({ code := .failure }, s)
        else .ok ((s.editVdi devId (insert layerId)).editCache devId
          { code := cached, layerId := some layerId } (insert layerId))) := rfl

theorem serve_destroyLayer (devId : DevId) (layerId : LayerId) (ret cached : Code) :
    (Event.destroyLayer devId layerId ret cached).serve p s =
      s.withAdapter fun a => callVdi a .destroyLayer
        (if ret ≠ .success then .ok ({ code := .failure }, s)
        else .ok ((s.editVdi devId (·.erase layerId)).editCache devId { code := cached }
          (·.erase layerId))) := rfl

theorem recorded_setDeviceCache {caches : DeviceCacheManager} (hc : s.cacheMgr = some caches)
    (devId : DevId) (cache : DeviceCache) :
    (s.setDeviceCache caches devId cache).recorded =
      Function.update s.recorded devId cache.layers := by
  funext d
  unfold recorded deviceCache setDeviceCache
  by_cases hd : d = devId
  · subst hd
    simp
  · simp [Function.update_of_ne hd, hc]

/-- A cache that takes the change changes what is recorded, and otherwise the operation fails and
nothing is changed. -/
theorem editCache_spec (s : DisplayComposerService) (devId : DevId) (reply : Reply)
    (edit : Finset LayerId → Finset LayerId) :
    (s.CacheTakes devId reply.code ∧ (s.editCache devId reply edit).1.code = .success ∧
      (s.editCache devId reply edit).2.vdiLayers = s.vdiLayers ∧
      (s.editCache devId reply edit).2.recorded =
        Function.update s.recorded devId (edit (s.recorded devId))) ∨
    (¬ s.CacheTakes devId reply.code ∧ (s.editCache devId reply edit).1.code ≠ .success ∧
      (s.editCache devId reply edit).2 = s) := by
  unfold editCache withDeviceCache CacheTakes
  cases hc : s.cacheMgr with
  | none => simp [deviceCache, hc]
  | some caches =>
    dsimp only
    cases hd : caches devId with
    | none => simp [deviceCache, hc, hd]
    | some cache =>
      have hcache : s.deviceCache devId = some cache := by simp [deviceCache, hc, hd]
      by_cases hr : reply.code = .success
      · refine .inl ⟨⟨hr, by simp [hcache]⟩, hr, ?_, ?_⟩
        · simp [hr, setDeviceCache]
        · simp only [hr, if_true]
          rw [recorded_setDeviceCache hc]
          simp [recorded, hcache]
      · exact .inr ⟨fun h => hr h.1, hr, if_neg hr⟩

/-- **Both halves of an operation keep the sets equal just in case the second one takes place or
the first one changes nothing.** -/
theorem layersKept_edit_iff (hs : s.LayersAgree) (devId : DevId) (reply : Reply)
    (edit : Finset LayerId → Finset LayerId) :
    (LayersAgree ((s.editVdi devId edit).editCache devId reply edit).2 ∧
        (((s.editVdi devId edit).editCache devId reply edit).1.code ≠ .success →
          s.SameLayers ((s.editVdi devId edit).editCache devId reply edit).2)) ↔
      (edit (s.vdiLayers devId) ≠ s.vdiLayers devId → s.CacheTakes devId reply.code) := by
  have htakes : (s.editVdi devId edit).CacheTakes devId reply.code ↔
      s.CacheTakes devId reply.code := Iff.rfl
  have hrecorded : (s.editVdi devId edit).recorded = s.recorded := rfl
  have hvdi : (s.editVdi devId edit).vdiLayers =
      Function.update s.vdiLayers devId (edit (s.vdiLayers devId)) := rfl
  rcases editCache_spec (s.editVdi devId edit) devId reply edit with
    ⟨hcache, hcode, hlayers, hrec⟩ | ⟨hcache, hcode, hstate⟩
  · refine iff_of_true ⟨fun d => ?_, fun h => absurd hcode h⟩ fun _ => htakes.mp hcache
    rw [hlayers, hrec, hvdi, hrecorded, hs devId, funext hs]
  · rw [hstate]
    constructor
    · rintro ⟨-, hsame⟩ hedit
      obtain ⟨hl, -⟩ := hsame hcode
      rw [hvdi] at hl
      have hself := congrFun hl devId
      rw [Function.update_self] at hself
      exact absurd hself hedit
    · intro h
      have hedit : edit (s.vdiLayers devId) = s.vdiLayers devId :=
        of_not_not fun hne => hcache (htakes.mpr (h hne))
      have hl : (s.editVdi devId edit).vdiLayers = s.vdiLayers := by
        rw [hvdi, hedit, Function.update_eq_self]
      exact ⟨fun d => by rw [hl, hrecorded, hs d], fun _ => ⟨hl, hrecorded⟩⟩

/-! ## The steps -/

/-- The events other than `CreateLayer`, `DestroyLayer` and a hot plug keep both sets. -/
theorem sameLayers_after {e : Event} (hc : ∀ d l ret cached, e ≠ .createLayer d l ret cached)
    (hd : ∀ d l ret cached, e ≠ .destroyLayer d l ret cached)
    (hp : ∀ d connected ret, e ≠ .onHotPlug d connected ret) : s.SameLayers (s.after p e) := by
  cases e with
  | createLayer d l ret cached => exact absurd rfl (hc d l ret cached)
  | destroyLayer d l ret cached => exact absurd rfl (hd d l ret cached)
  | onHotPlug d connected ret => exact absurd rfl (hp d connected ret)
  | _ => exact ⟨rfl, rfl⟩

theorem SameLayers.agree (h : s.SameLayers t) (hs : s.LayersAgree) : t.LayersAgree :=
  fun devId => by rw [h.1, h.2, hs devId]

/-- An event that reaches only states with the same layers. -/
theorem layersKept_of_reaches (hs : s.LayersAgree) {e : Event}
    (h : ∀ reply t, e.serve p s = .ok (reply, t) → s.SameLayers t) : s.LayersKept p e := by
  refine ⟨?_, fun reply t ht _ => h reply t ht⟩
  unfold step
  split
  · next reply t ht => exact (h reply t ht).agree hs
  · exact hs

/-- An operation that calls the VDI and then changes the cache. -/
theorem layersKept_call_iff (hs : s.LayersAgree) {e : Event} {f : VdiFn} {ret : Code}
    {devId : DevId} {reply : Reply} {edit : Finset LayerId → Finset LayerId}
    (he : e.serve p s = s.withAdapter fun a => callVdi a f
      (if ret ≠ .success then .ok ({ code := .failure }, s)
      else .ok ((s.editVdi devId edit).editCache devId reply edit))) :
    s.LayersKept p e ↔ (s.VdiTakes f ret → edit (s.vdiLayers devId) ≠ s.vdiLayers devId →
      s.CacheTakes devId reply.code) := by
  by_cases htakes : s.VdiTakes f ret
  · have hserve : e.serve p s = .ok ((s.editVdi devId edit).editCache devId reply edit) := by
      rw [he, withAdapter_of_takes htakes, if_neg (not_not.mpr htakes.1)]
    have hstep : s.step p e = ((s.editVdi devId edit).editCache devId reply edit).2 := by
      rw [step, hserve]
    rw [forall_prop_of_true htakes, ← layersKept_edit_iff hs devId reply edit]
    unfold LayersKept
    rw [hstep, hserve]
    refine and_congr_right fun _ => ⟨fun h => h _ _ rfl, fun h r t ht => ?_⟩
    rw [Except.ok.inj ht] at h
    exact h
  · have hreach : Reaches s s (e.serve p s) := by
      rw [he]
      refine state_of_not_takes htakes fun hret => ?_
      rw [if_pos hret]
      exact reaches_same _
    refine iff_of_true (layersKept_of_reaches hs fun r t ht => ?_) fun h => absurd h htakes
    rw [(hreach r t ht).elim id id]
    exact ⟨rfl, rfl⟩

/-- **A step keeps the sets equal, and keeps them when it fails, just in case the cache follows
the VDI.** -/
theorem layersKept_step_iff (hs : s.LayersAgree) {e : Event}
    (hp : ∀ d connected ret, e ≠ .onHotPlug d connected ret) :
    s.LayersKept p e ↔ s.CacheFollows e := by
  by_cases hc : ∃ d l ret cached, e = .createLayer d l ret cached
  · obtain ⟨d, l, ret, cached, rfl⟩ := hc
    rw [layersKept_call_iff hs (serve_createLayer d l ret cached)]
    simp only [CacheFollows, ne_eq, Finset.insert_eq_self]
  · by_cases hd : ∃ d l ret cached, e = .destroyLayer d l ret cached
    · obtain ⟨d, l, ret, cached, rfl⟩ := hd
      rw [layersKept_call_iff hs (serve_destroyLayer d l ret cached)]
      simp only [CacheFollows, ne_eq, Finset.erase_eq_self, not_not]
    · have hsame : s.SameLayers (s.after p e) := sameLayers_after
        (fun d l ret cached h => hc ⟨d, l, ret, cached, h⟩)
        (fun d l ret cached h => hd ⟨d, l, ret, cached, h⟩) hp
      refine iff_of_true (layersKept_of_reaches hs fun reply t ht => ?_) ?_
      · rcases reaches_serve e reply t ht with rfl | rfl
        · exact ⟨rfl, rfl⟩
        · exact hsame
      · cases e with
        | createLayer d l ret cached => exact absurd ⟨d, l, ret, cached, rfl⟩ hc
        | destroyLayer d l ret cached => exact absurd ⟨d, l, ret, cached, rfl⟩ hd
        | _ => trivial

/-- No display is plugged in or out. -/
def NoHotPlug (_ : DisplayComposerService) (e : Event) : Prop :=
  ∀ devId connected ret, e ≠ .onHotPlug devId connected ret

/-- **From equal sets on, and between two hot plugs, the layers of the VDI and of the caches stay
equal, and a failed operation changes neither, just in case the cache follows each change of the
VDI.** -/
theorem layers_agree_iff {es : List Event} (hs : s.LayersAgree) :
    (((service p).restrict NoHotPlug).restrict (LayersKept p)).Run s es t ↔
      (((service p).restrict NoHotPlug).restrict CacheFollows).Run s es t :=
  System.Run.restrict_congr (fun _ _ hu he => layersKept_step_iff hu he.2) (fun _ _ _ _ h => h.1)
    hs

/-! ## A device without a cache -/

/-- A service with all functions, after a display has been plugged in as device 0. -/
def samplePlugged : DisplayComposerService where
  vdiAdapter := some fun _ => .loaded
  cacheMgr := some (Function.update (fun _ => none) 0 (some { layers := ∅ }))

theorem layersAgree_samplePlugged : samplePlugged.LayersAgree := by
  intro devId
  by_cases h : devId = 0
  · subst h
    rfl
  · simp [samplePlugged, recorded, deviceCache, Function.update_of_ne h]

/-- A platform without a default library. -/
def plainPlatform : Platform := { defaultLibraryEnable := false, unsetIsNull := fun _ => true }

/-- A layer of device 0 is created, and both stores have it. -/
theorem layers_agree_iff_run :
    let s := samplePlugged.step plainPlatform (.createLayer 0 7 .success .success)
    s.vdiLayers 0 = {7} ∧
      (((service plainPlatform).restrict NoHotPlug).restrict (LayersKept plainPlatform)).Run
        samplePlugged [.createLayer 0 7 .success .success] s := by
  refine ⟨by decide, (layers_agree_iff layersAgree_samplePlugged).mpr ?_⟩
  refine .cons ⟨⟨by rintro f ⟨⟩, by rintro d connected ret ⟨⟩⟩, ?_⟩ (.nil _)
  exact fun _ _ => ⟨rfl, by decide⟩

/-- A layer of device 1 is created in the VDI, and the operation fails. -/
theorem layer_without_cache :
    samplePlugged.LayersAgree ∧
      (samplePlugged.step plainPlatform (.createLayer 1 7 .success .success)).vdiLayers 1 = {7} ∧
      (samplePlugged.step plainPlatform (.createLayer 1 7 .success .success)).recorded 1 = ∅ ∧
      ¬ samplePlugged.LayersKept plainPlatform (.createLayer 1 7 .success .success) := by
  refine ⟨layersAgree_samplePlugged, by decide, by decide, fun h => ?_⟩
  exact absurd (h.1 1) (by decide)

end DisplayComposerService

end Composer
