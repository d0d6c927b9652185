import OpenHarmonyMac.Ldso.InitFini

/-!
# Constructors run once and in order

* `Visits` — the visitors of the objects are the threads that are at their constructors
* `initFini_constructors` — what a run constructs, and when
-/

namespace Ldso

open Infra DepthFirst

variable {τ δ : Type} [DecidableEq τ] [DecidableEq δ]

/-! ## Who is at which constructors -/

/-- The object whose constructors a call is at. -/
def busy (f : Frame δ) : Option δ :=
  match f.pc with
  | .construct | .relock => f.queue[f.i]?
  | _ => none

/-- The objects whose constructors a thread is at. -/
def underway (fs : List (Frame δ)) : List δ := fs.filterMap busy

/-- What a call has gone past is constructed, or under construction in a call further out. -/
def Passed (constructed : δ → Bool) : List (Frame δ) → Prop
  | [] => True
  | f :: outer =>
    (∀ d ∈ f.queue.take f.i, constructed d = true ∨ d ∈ underway outer) ∧ Passed constructed outer

/-- The visitors are the threads that are at the constructors, and the log and the list of
destructors have what has been started. -/
structure Visits (hasFini : δ → Bool) (visitor : δ → Option τ) (constructed : δ → Bool)
    (finiHead : List δ) (frames : τ → List (Frame δ)) (log : List (Ran δ)) : Prop where
  visitor_iff : ∀ d t, visitor d = some t ↔ d ∈ underway (frames t)
  nodup : ∀ t, (underway (frames t)).Nodup
  fresh : ∀ d t, visitor d = some t → constructed d = false
  passed : ∀ t, Passed constructed (frames t)
  started : ∀ d, d ∈ ctorsOf log ↔ constructed d = true ∨ ∃ t, visitor d = some t
  once : (ctorsOf log).Nodup
  fini : finiHead = (ctorsOf log).reverse.filter hasFini

section Visits

variable {hasFini : δ → Bool} {visitor : δ → Option τ} {constructed : δ → Bool} {finiHead : List δ}
  {frames : τ → List (Frame δ)} {log : List (Ran δ)} {t : τ} {f g : Frame δ} {fs : List (Frame δ)}
  {p d : δ}

omit [DecidableEq τ] [DecidableEq δ] in
theorem Passed.mono {constructed' : δ → Bool} (h : Passed constructed fs)
    (hmono : ∀ d, constructed d = true → constructed' d = true) : Passed constructed' fs := by
  induction fs with
  | nil => trivial
  | cons f fs ih => exact ⟨fun d hd => (h.1 d hd).imp_left (hmono d), ih h.2⟩

omit [DecidableEq δ] in
/-- The calls of one thread change, and what it is at does not. -/
theorem Visits.setFrames {fs' : List (Frame δ)}
    (h : Visits hasFini visitor constructed finiHead frames log)
    (hunderway : underway fs' = underway (frames t)) (hpassed : Passed constructed fs') :
    Visits hasFini visitor constructed finiHead (Function.update frames t fs') log := by
  have hall : ∀ u, underway (Function.update frames t fs' u) = underway (frames u) := by
    intro u
    by_cases hu : u = t
    · cases hu
      rw [Function.update_self, hunderway]
    · rw [Function.update_of_ne hu]
  refine ⟨fun d u => by rw [hall]; exact h.visitor_iff d u, fun u => by rw [hall]; exact h.nodup u,
    h.fresh, fun u => ?_, h.started, h.once, h.fini⟩
  by_cases hu : u = t
  · cases hu
    rwa [Function.update_self]
  · rw [Function.update_of_ne hu]
    exact h.passed u

omit [DecidableEq δ] in
/-- The innermost call goes on at another place. -/
theorem Visits.goto (h : Visits hasFini visitor constructed finiHead frames log)
    (hf : frames t = f :: fs) (pc : Pc) (hbusy : busy { f with pc := pc } = busy f) :
    Visits hasFini visitor constructed finiHead
      (Function.update frames t ({ f with pc := pc } :: fs)) log := by
  have hp := h.passed t
  rw [hf] at hp
  refine h.setFrames ?_ hp
  rw [hf, underway, underway, List.filterMap_cons, List.filterMap_cons, hbusy]

omit [DecidableEq δ] in
/-- The object is constructed, or this thread is at its constructors: the call goes past it. -/
theorem Visits.skip (h : Visits hasFini visitor constructed finiHead frames log)
    (hf : frames t = f :: fs) (hpc : f.pc = .scan) (hp : f.queue[f.i]? = some p)
    (hdone : constructed p = true ∨ visitor p = some t) :
    Visits hasFini visitor constructed finiHead
      (Function.update frames t ({ f with i := f.i + 1 } :: fs)) log := by
  have hbusy : busy f = none := by rw [busy, hpc]
  have hbusy' : busy { f with i := f.i + 1 } = none := by simp only [busy, hpc]
  have hpass := h.passed t
  rw [hf] at hpass
  refine h.setFrames ?_ ⟨fun d hd => ?_, hpass.2⟩
  · rw [hf, underway, underway, List.filterMap_cons, List.filterMap_cons, hbusy, hbusy']
  · rw [List.take_add_one, hp, Option.toList_some, List.mem_append, List.mem_singleton] at hd
    rcases hd with hd | rfl
    · exact hpass.1 d hd
    · refine hdone.imp_right fun hv => ?_
      have hmem := (h.visitor_iff d t).mp hv
      rwa [hf, underway, List.filterMap_cons, hbusy] at hmem

/-- The thread starts the constructors of an object that nobody has started before. -/
theorem Visits.claim (h : Visits hasFini visitor constructed finiHead frames log)
    (hf : frames t = f :: fs) (hpc : f.pc = .scan) (hp : f.queue[f.i]? = some p)
    (hv : visitor p = none) (hc : constructed p = false) :
    Visits hasFini (Function.update visitor p (some t)) constructed
      (if hasFini p then p :: finiHead else finiHead)
      (Function.update frames t ({ f with pc := .construct } :: fs)) (log ++ [.ctors p]) := by
  have hbusy : busy f = none := by rw [busy, hpc]
  have hfs : underway (frames t) = underway fs := by
    rw [hf, underway, List.filterMap_cons, hbusy, ← underway]
  have hnew : underway ({ f with pc := .construct } :: fs) = p :: underway fs := by
    rw [underway, List.filterMap_cons]
    simp only [busy, hp, underway]
  have hnot : ∀ u, p ∉ underway (frames u) := fun u hu => by
    rw [(h.visitor_iff p u).mpr hu] at hv
    cases hv
  have hlog : ctorsOf (log ++ [.ctors p]) = ctorsOf log ++ [p] := by simp [ctorsOf]
  have hstarted : p ∉ ctorsOf log := by
    rw [h.started]
    rintro (hc' | ⟨u, hu⟩)
    · exact absurd (hc.symm.trans hc') (by decide)
    · exact absurd (hv.symm.trans hu) (by simp)
  have hpass := h.passed t
  rw [hf] at hpass
  refine ⟨fun d u => ?_, fun u => ?_, fun d u hd => ?_, fun u => ?_, fun d => ?_, ?_, ?_⟩
  · by_cases hu : u = t
    · cases hu
      rw [Function.update_self, hnew, List.mem_cons]
      by_cases hd : d = p
      · simp [hd]
      · rw [Function.update_of_ne hd, h.visitor_iff, hfs]
        simp [hd]
    · rw [Function.update_of_ne hu]
      by_cases hd : d = p
      · cases hd
        rw [Function.update_self]
        exact ⟨fun he => absurd (Option.some.inj he).symm hu, fun he => absurd he (hnot u)⟩
      · rw [Function.update_of_ne hd]
        exact h.visitor_iff d u
  · by_cases hu : u = t
    · cases hu
      rw [Function.update_self, hnew, List.nodup_cons, ← hfs]
      exact ⟨hnot t, h.nodup t⟩
    · rw [Function.update_of_ne hu]
      exact h.nodup u
  · by_cases hdp : d = p
    · rw [hdp, hc]
    · rw [Function.update_of_ne hdp] at hd
      exact h.fresh d u hd
  · by_cases hu : u = t
    · cases hu
      rw [Function.update_self]
      exact hpass
    · rw [Function.update_of_ne hu]
      exact h.passed u
  · rw [hlog, List.mem_append, List.mem_singleton, h.started]
    by_cases hd : d = p
    · simp [hd]
    · rw [Function.update_of_ne hd]
      simp [hd]
  · rw [hlog]
    exact List.Nodup.append h.once (List.nodup_singleton p) (by simpa using hstarted)
  · rw [hlog, List.reverse_append, List.reverse_singleton, List.singleton_append, List.filter_cons,
      ← h.fini]

/-- The constructors of the object have run. -/
theorem Visits.finish (h : Visits hasFini visitor constructed finiHead frames log)
    (hf : frames t = f :: fs) (hpc : f.pc = .relock) (hp : f.queue[f.i]? = some p) :
    Visits hasFini (Function.update visitor p none) (Function.update constructed p true) finiHead
      (Function.update frames t ({ f with i := f.i + 1, pc := .scan } :: fs)) log := by
  have hold : underway (frames t) = p :: underway fs := by
    rw [hf, underway, List.filterMap_cons]
    simp only [busy, hpc, hp, underway]
  have hnew : underway ({ f with i := f.i + 1, pc := .scan } :: fs) = underway fs := by
    rw [underway, List.filterMap_cons]
    simp only [busy, underway]
  have hnodup := h.nodup t
  rw [hold, List.nodup_cons] at hnodup
  have hvisit : visitor p = some t := (h.visitor_iff p t).mpr (hold ▸ List.mem_cons_self)
  have hmono : ∀ d, constructed d = true → Function.update constructed p true d = true := by
    intro d hd
    by_cases hdp : d = p
    · rw [hdp, Function.update_self]
    · rwa [Function.update_of_ne hdp]
  have hpass := h.passed t
  rw [hf] at hpass
  refine ⟨fun d u => ?_, fun u => ?_, fun d u hd => ?_, fun u => ?_, fun d => ?_, h.once, h.fini⟩
  · by_cases hd : d = p
    · cases hd
      rw [Function.update_self]
      refine ⟨fun he => (by cases he), fun he => ?_⟩
      by_cases hu : u = t
      · cases hu
        rw [Function.update_self, hnew] at he
        exact absurd he hnodup.1
      · rw [Function.update_of_ne hu, ← h.visitor_iff, hvisit] at he
        exact absurd (Option.some.inj he).symm hu
    · rw [Function.update_of_ne hd, h.visitor_iff]
      by_cases hu : u = t
      · cases hu
        rw [Function.update_self, hnew, hold, List.mem_cons]
        simp [hd]
      · rw [Function.update_of_ne hu]
  · by_cases hu : u = t
    · cases hu
      rw [Function.update_self, hnew]
      exact hnodup.2
    · rw [Function.update_of_ne hu]
      exact h.nodup u
  · by_cases hdp : d = p
    · rw [hdp, Function.update_self] at hd
      cases hd
    · rw [Function.update_of_ne hdp] at hd ⊢
      exact h.fresh d u hd
  · by_cases hu : u = t
    · cases hu
      rw [Function.update_self]
      refine ⟨fun d hd => ?_, hpass.2.mono hmono⟩
      rw [List.take_add_one, hp, Option.toList_some, List.mem_append, List.mem_singleton] at hd
      rcases hd with hd | rfl
      · exact (hpass.1 d hd).imp_left (hmono d)
      · exact Or.inl (Function.update_self ..)
    · rw [Function.update_of_ne hu]
      exact (h.passed u).mono hmono
  · rw [h.started]
    by_cases hd : d = p
    · simp [hd, hvisit]
    · rw [Function.update_of_ne hd, Function.update_of_ne hd]

end Visits

/-! ## Runs -/

variable {hasFini : δ → Bool} {s s' : Linker τ δ} {log : List (Ran δ)} {es : List (Act τ δ)} {t : τ}
  {succ : δ → List δ}

/-- `Visits` of what the threads share. -/
def Linker.Visited (hasFini : δ → Bool) (s : Linker τ δ) (log : List (Ran δ)) : Prop :=
  Visits hasFini s.visitor s.constructed s.finiHead s.frames log

omit [DecidableEq τ] [DecidableEq δ] in
theorem visited_initial : (Linker.initial : Linker τ δ).Visited hasFini [] :=
  ⟨fun _ _ => by simp [Linker.initial, underway], fun _ => List.nodup_nil,
    fun _ _ h => (nomatch h), fun _ => trivial, fun _ => by simp [Linker.initial, ctorsOf],
    List.nodup_nil, rfl⟩

omit [DecidableEq τ] [DecidableEq δ] in
/-- A step that runs no constructors leaves the log of the constructors as it is. -/
theorem Visits.congr_log {visitor : δ → Option τ} {constructed : δ → Bool} {finiHead : List δ}
    {frames : τ → List (Frame δ)} {log' : List (Ran δ)}
    (h : Visits hasFini visitor constructed finiHead frames log)
    (hlog : ctorsOf log' = ctorsOf log) :
    Visits hasFini visitor constructed finiHead frames log' :=
  ⟨h.visitor_iff, h.nodup, h.fresh, h.passed, hlog ▸ h.started, hlog ▸ h.once, hlog ▸ h.fini⟩

theorem visited_scan {f : Frame δ} {fs : List (Frame δ)} (h : s.Visited hasFini log)
    (hexit : s.exiting t = none) (hf : s.frames t = f :: fs) (hpc : f.pc = .scan) :
    (s.scan hasFini t f fs).Visited hasFini (log ++ s.runs t) := by
  have hbusy : busy f = none := by rw [busy, hpc]
  have hruns : s.runs t = match f.queue[f.i]? with
      | some p =>
        if s.mustWait t p || (s.visitor p).isSome || s.constructed p then [] else [.ctors p]
      | none => [] := by
    simp only [Linker.runs, hexit, hf, hpc]
    cases f.queue[f.i]? <;> rfl
  rw [Linker.scan, hruns]
  cases hp : f.queue[f.i]? with
  | none =>
    have hpass := h.passed t
    rw [hf] at hpass
    rw [List.append_nil]
    refine h.setFrames ?_ hpass.2
    rw [hf, underway, underway, List.filterMap_cons, hbusy]
  | some p =>
    simp only
    by_cases hwait : s.mustWait t p = true
    · rw [if_pos hwait, hwait, Bool.true_or, Bool.true_or, if_pos rfl, List.append_nil]
      exact h.goto hf .wait hbusy.symm
    · by_cases hdone : ((s.visitor p).isSome || s.constructed p) = true
      · rw [if_neg hwait, if_pos hdone, Bool.or_assoc, hdone, Bool.or_true, if_pos rfl,
          List.append_nil]
        refine h.skip hf hpc hp ?_
        rw [Bool.or_eq_true] at hdone
        refine hdone.symm.imp_right fun hv => ?_
        obtain ⟨u, hu⟩ := Option.isSome_iff_exists.mp hv
        have hnot : u = t ∧ s.shuttingDown = false := by simpa [Linker.mustWait, hu] using hwait
        rw [hu, hnot.1]
      · have hw : s.mustWait t p = false := by simpa using hwait
        have hv : s.visitor p = none ∧ s.constructed p = false := by simpa using hdone
        rw [if_neg hwait, if_neg hdone, hw, hv.1, hv.2]
        exact h.claim hf hpc hp hv.1 hv.2

theorem visited_next (h : s.Visited hasFini log) (hready : s.ready t) :
    (s.next hasFini t).Visited hasFini (log ++ s.runs t) := by
  unfold Linker.next
  cases hexit : s.exiting t with
  | some pc =>
    have hlog : ctorsOf (log ++ s.runs t) = ctorsOf log := by
      unfold Linker.runs
      rw [hexit]
      cases pc with
      | scan rest =>
        cases rest with
        | nil => simp [ctorsOf]
        | cons p rest =>
          simp only
          split <;> simp [ctorsOf]
      | lock => simp [ctorsOf]
      | wait rest => simp [ctorsOf]
      | returned => simp [ctorsOf]
    refine Visits.congr_log ?_ hlog
    cases pc with
    | lock => exact h
    | scan rest =>
      cases rest with
      | nil => exact h
      | cons p rest =>
        simp only [Linker.exitScan]
        split <;> exact h
    | wait rest => exact h
    | returned => exact h
  | none =>
    cases hf : s.frames t with
    | nil => simp [Linker.ready, hexit, hf] at hready
    | cons f fs =>
      simp only
      have hruns : f.pc ≠ .scan → log ++ s.runs t = log := by
        intro hpc
        unfold Linker.runs
        rw [hexit, hf]
        cases f with
        | mk queue i pc => cases pc <;> simp_all
      cases hpc : f.pc with
      | lock =>
        rw [hruns (by simp [hpc])]
        exact h.goto hf .scan (by simp only [busy, hpc])
      | wait =>
        rw [hruns (by simp [hpc])]
        exact h.goto hf .scan (by simp only [busy, hpc])
      | scan => exact visited_scan h hexit hf hpc
      | construct =>
        rw [hruns (by simp [hpc])]
        exact h.goto hf .relock (by simp [busy, hpc])
      | relock =>
        rw [hruns (by simp [hpc])]
        simp only [Linker.finish]
        cases hp : f.queue[f.i]? with
        | none => exact h
        | some p => exact h.finish hf hpc hp

/-- Every step keeps track of who is at which constructors. -/
theorem visited_step (e : Act τ δ) (h : s.Visited hasFini log)
    (he : (initFini hasFini).enabled s e) :
    ((initFini hasFini).step s e).Visited hasFini (log ++ ran s e) := by
  cases e with
  | call t queue =>
    show Linker.Visited hasFini _ (log ++ [])
    rw [List.append_nil]
    refine Visits.setFrames h ?_ ⟨fun d hd => by simp at hd, h.passed t⟩
    rw [underway, List.filterMap_cons]
    rfl
  | exit t =>
    show Linker.Visited hasFini _ (log ++ [])
    rw [List.append_nil]
    exact h
  | next t => exact visited_next h he

/-- What a run has run. -/
def logOf (hasFini : δ → Bool) (es : List (Act τ δ)) : List (Ran δ) :=
  (initFini hasFini).emitted ran Linker.initial es

theorem visited_run (hr : (initFini hasFini).Run Linker.initial es s) :
    s.Visited hasFini (logOf hasFini es) := by
  have : s.Visited hasFini ([] ++ logOf hasFini es) :=
    hr.invariant_emitted (fun _ e _ hs he => visited_step e hs he) visited_initial
  rwa [List.nil_append] at this

/-! ## Dependencies first -/

/-- The queue is one that `queue_ctors` has made, from objects that need what `succ` tells. -/
def FromQueueCtors (succ : δ → List δ) (queue : List δ) : Prop :=
  ∃ (l u : Loader δ) (p : δ) (calloc runtime : Bool) (fuel : Nat) (buf : List (Option δ)),
    l.WellFormed ∧ p ∈ l.list ∧ l.work < fuel ∧ (∀ d ∈ l.list, l.direct d = succ d) ∧
      l.queueCtors false calloc runtime fuel p = .ok (u, some buf) ∧ queue = entries buf

theorem FromQueueCtors.ordered {queue l₁ l₂ : List δ} {x y : δ} (h : FromQueueCtors succ queue)
    (hq : queue = l₁ ++ x :: l₂) (hy : y ∈ succ x) : y ∈ l₁ ∨ Reach succ y x := by
  obtain ⟨l, u, p, calloc, runtime, fuel, buf, hl, hp, hfuel, hsucc, hok, rfl⟩ := h
  rcases queueCtors_cases calloc runtime hl hp hfuel with
    ⟨_, _, ⟨herr, _⟩ | ⟨v, hnone, _⟩⟩ | ⟨v, buf', hok', hpost, _⟩
  · rw [hok] at herr
    cases herr
  · rw [hok] at hnone
    cases hnone
  · rw [hok] at hok'
    cases hok'
    have hx : x ∈ l.list := by
      refine mem_list_of_reach hl hp ((hpost.mem_iff x).mp ?_)
      rw [hq]
      simp
    have hyl : y ∈ l.list := (hl x hx).listed y (by rwa [hsucc x hx])
    refine (hpost.ordered l₁ x l₂ hq y (by rwa [hsucc x hx])).imp_right fun hyx => ?_
    -- the path stays among the objects of the list
    have hpath : ∀ z, Reach l.direct y z → z ∈ l.list ∧ Reach succ y z := by
      intro z hz
      induction hz with
      | refl => exact ⟨hyl, .refl⟩
      | tail _ hab ih =>
        refine ⟨(hl _ ih.1).listed _ hab, ih.2.tail ?_⟩
        rwa [hsucc _ ih.1] at hab
    exact (hpath x hyx).2

omit [DecidableEq τ] [DecidableEq δ] in
/-- Where a call is at the constructors of an object, the objects in front of it in its queue are
constructed, or under construction in a call further out. -/
theorem passed_of_mem_underway {constructed : δ → Bool} {fs : List (Frame δ)} {x : δ}
    (h : Passed constructed fs) (hx : x ∈ underway fs) :
    ∃ f ∈ fs, f.queue[f.i]? = some x ∧
      ∀ d ∈ f.queue.take f.i, constructed d = true ∨ d ∈ underway fs := by
  induction fs with
  | nil => simp [underway] at hx
  | cons f fs ih =>
    have hsub : ∀ d, d ∈ underway fs → d ∈ underway (f :: fs) := by
      intro d hd
      rw [underway, List.filterMap_cons]
      split
      · exact hd
      · exact List.mem_cons_of_mem _ hd
    by_cases hf : busy f = some x
    · refine ⟨f, List.mem_cons_self, ?_, fun d hd => (h.1 d hd).imp_right (hsub d)⟩
      unfold busy at hf
      split at hf
      · exact hf
      · exact hf
      · cases hf
    · have hx' : x ∈ underway fs := by
        rw [underway, List.filterMap_cons] at hx
        split at hx
        · exact hx
        · next hb =>
          rcases List.mem_cons.mp hx with rfl | hx
          · exact absurd hb hf
          · exact hx
      obtain ⟨g, hg, hgx, hpass⟩ := ih h.2 hx'
      exact ⟨g, List.mem_cons_of_mem f hg, hgx, fun d hd => (hpass d hd).imp_right (hsub d)⟩

/-- Each queue that a thread is at has been passed to `do_init_fini` by it. -/
theorem queue_mem_calls (hr : (initFini hasFini).Run Linker.initial es s) :
    ∀ t, ∀ f ∈ s.frames t, Act.call t f.queue ∈ es := by
  refine hr.invariant_events (I := fun s es => ∀ t, ∀ f ∈ s.frames t, Act.call t f.queue ∈ es)
    (fun s es e hs _ => ?_) (fun t f hf => (nomatch hf))
  intro u g hg
  cases e with
  | call t queue =>
    by_cases hu : u = t
    · cases hu
      simp only [initFini, Linker.setFrames, Function.update_self, List.mem_cons] at hg
      rcases hg with rfl | hg
      · simp
      · exact List.mem_append_left _ (hs _ g hg)
    · simp only [initFini, Linker.setFrames, Function.update_of_ne hu] at hg
      exact List.mem_append_left _ (hs u g hg)
  | exit t => exact List.mem_append_left _ (hs u g hg)
  | next t =>
    obtain ⟨f, hf, hq⟩ := Linker.queue_next hg
    rw [← hq]
    exact List.mem_append_left _ (hs u f hf)

/-- In every run each object is constructed at most once. While its constructors run, the objects
that it needs are constructed, or the same thread is at their constructors, or they need the object
themselves. When `do_init_fini` returns, the whole queue is constructed, but for what the thread
itself is at further out. -/
theorem initFini_constructors (hr : (initFini hasFini).Run Linker.initial es s)
    (hqueues : ∀ t queue, Act.call t queue ∈ es → FromQueueCtors succ queue) :
    (ctorsOf (logOf hasFini es)).Nodup ∧
      (∀ d, d ∈ ctorsOf (logOf hasFini es) ↔
        s.constructed d = true ∨ ∃ t, s.visitor d = some t) ∧
      (∀ x t, s.visitor x = some t → ∀ y ∈ succ x,
        s.constructed y = true ∨ s.visitor y = some t ∨ Reach succ y x) ∧
      ∀ t f fs, s.frames t = f :: fs → f.pc = .scan → f.queue[f.i]? = none →
        ∀ d ∈ f.queue, s.constructed d = true ∨ s.visitor d = some t := by
  have hv := visited_run hr
  refine ⟨hv.once, hv.started, ?_, ?_⟩
  · intro x t hx y hy
    obtain ⟨f, hf, hfx, hpass⟩ :=
      passed_of_mem_underway (hv.passed t) ((hv.visitor_iff x t).mp hx)
    have hsplit : f.queue = f.queue.take f.i ++ x :: f.queue.drop (f.i + 1) := by
      obtain ⟨hlt, hget⟩ := List.getElem?_eq_some_iff.mp hfx
      rw [← hget, List.getElem_cons_drop, List.take_append_drop]
    rcases (hqueues t f.queue (queue_mem_calls hr t f hf)).ordered hsplit hy with hin | hreach
    · exact (hpass y hin).imp_right fun hu => Or.inl ((hv.visitor_iff y t).mpr hu)
    · exact Or.inr (Or.inr hreach)
  · intro t f fs hf hpc hend d hd
    have hpass := hv.passed t
    rw [hf] at hpass
    have htake : f.queue.take f.i = f.queue :=
      List.take_of_length_le (List.getElem?_eq_none_iff.mp hend)
    refine (hpass.1 d (by rwa [htake])).imp_right fun hu => (hv.visitor_iff d t).mpr ?_
    have hbusy : busy f = none := by rw [busy, hpc]
    rw [hf, underway, List.filterMap_cons, hbusy]
    exact hu

theorem fromQueueCtors_chain :
    FromQueueCtors chain.direct [2, 1, 0] ∧ FromQueueCtors chain.direct [2, 1] :=
  ⟨⟨chain, _, 0, true, true, 12, _, wellFormed_chain, by decide, by decide, fun _ _ => rfl, rfl,
    by decide⟩,
   ⟨chain, _, 1, true, true, 12, _, wellFormed_chain, by decide, by decide, fun _ _ => rfl, rfl,
    by decide⟩⟩

theorem initFini_constructors_shortProgram :
    let s := shortProgram.foldl (initFini fun d => d != 1).step Linker.initial
    let log := logOf (fun d => d != 1) shortProgram
    (ctorsOf log).Nodup ∧
      (∀ d, d ∈ ctorsOf log ↔ s.constructed d = true ∨ ∃ t, s.visitor d = some t) ∧
      (∀ x t, s.visitor x = some t → ∀ y ∈ chain.direct x,
        s.constructed y = true ∨ s.visitor y = some t ∨ Reach chain.direct y x) ∧
      ∀ t f fs, s.frames t = f :: fs → f.pc = .scan → f.queue[f.i]? = none →
        ∀ d ∈ f.queue, s.constructed d = true ∨ s.visitor d = some t :=
  initFini_constructors (System.Run.of_enabledAll (by decide)) fun t queue h => by
    have hq : queue = [2, 1, 0] ∨ queue = [2, 1] := by
      simp only [shortProgram, List.mem_cons, Act.call.injEq, reduceCtorEq, false_or,
        List.not_mem_nil, or_false] at h
      rcases h with ⟨-, h⟩ | ⟨-, h⟩ | ⟨-, h⟩
      · exact .inl h
      · exact .inl h
      · exact .inr h
    rcases hq with rfl | rfl
    · exact fromQueueCtors_chain.1
    · exact fromQueueCtors_chain.2

end Ldso
