import OpenHarmonyMac.Musl.SynccallRuns

/-!
# Changing the ids of all threads

`do_setxid` gives up where a thread before it failed, and kills the process where it fails itself
after another one has changed its ids. Up to the release one thread at a time makes the callback, so
the first answer of the kernel decides.

* `Outcome` — what the result in the context says of the ids
* `setxid_allOrNothing` — the ids of all threads change, or of none, or the process is killed
-/

namespace Musl.Synccall

open Infra

variable {τ : Type}

/-- Where a thread is, seen from the callback. -/
inductive Place
  | before
  | during (body : Body)
  | after
  deriving DecidableEq, Repr

def HandlerPc.place : HandlerPc → Place
  | .running | .signalled | .waitFirst => .before
  | .callback body => .during body
  | .postRan | .waitSecond | .postGone | .returned => .after

def CallerPc.place : CallerPc → Place
  | .signal | .waitCaught | .post _ | .waitRan _ => .before
  | .func body => .during body
  | .release _ | .waitGone _ | .returned => .after

namespace Process

def place (s : Process τ) : Option τ → Place
  | none => s.caller.place
  | some t => (s.pc t).place

def EAGAIN : Int := 11

/-- What `__setxid` returns, with `-errno` for an error. -/
def result (s : Process τ) : Int := if s.ret > 0 then -EAGAIN else s.ret

end Process

/-- What the result says of a thread: the ids have changed, or they have not and will not. -/
def Fits (ret : Int) (changed : Bool) : Place → Prop
  | .before | .during .read => changed = false
  | .during .syscall => 0 ≤ ret ∧ changed = false
  | .during (.check answer) => 0 ≤ ret ∧ answer ≤ 0 ∧ (changed = true ↔ answer = 0)
  | .during (.store answer) =>
    0 ≤ ret ∧ answer ≤ 0 ∧ (changed = true ↔ answer = 0) ∧ (ret = 0 → answer = 0)
  | .after => ret ≤ 0 ∧ (changed = true ↔ ret = 0)

structure Outcome (s : Process τ) : Prop where
  early : s.caller = .signal ∨ s.caller = .waitCaught → s.ret = 1
  aborted : s.aborted = true →
    s.ret = 1 ∧ ∀ x, s.changed x = false ∧ ∀ body, s.place x ≠ .during body
  fits : s.aborted = false → ∀ x, Fits s.ret (s.changed x) (s.place x)
  ret_le : s.ret ≤ 1
  zero : s.ret = 0 → ∃ x, s.changed x = true
  killed : s.killed = true → (∃ x, s.changed x = true) ∧ ∃ x, s.changed x = false

variable {s s' : Process τ} {x : Option τ} {t : τ} {answer : Int} {body : Body}

/-- A thread comes to the callback, or to the dummy in its place. -/
def Place.Moves (aborted : Bool) (p p' : Place) : Prop :=
  p' = p ∨ p = .before ∧ p' = if aborted then .after else .during .read

/-- A step outside the callback. -/
theorem Outcome.keep (h : Outcome s) (hret : s'.ret = s.ret) (hchanged : s'.changed = s.changed)
    (hkilled : s'.killed = s.killed) (haborted : s'.aborted = s.aborted)
    (hearly : s'.caller = .signal ∨ s'.caller = .waitCaught →
      s.caller = .signal ∨ s.caller = .waitCaught)
    (hplace : ∀ x, (s.place x).Moves s.aborted (s'.place x)) : Outcome s' := by
  refine ⟨?_, ?_, ?_, ?_, ?_, ?_⟩
  · rw [hret]
    exact fun hs' => h.early (hearly hs')
  · rw [haborted, hret, hchanged]
    intro habort
    obtain ⟨hone, hnone⟩ := h.aborted habort
    refine ⟨hone, fun x => ⟨(hnone x).1, fun body => ?_⟩⟩
    rcases hplace x with hsame | ⟨-, hafter⟩
    · rw [hsame]
      exact (hnone x).2 body
    · rw [hafter, habort]
      nofun
  · rw [haborted, hret, hchanged]
    intro hgo x
    have hfits := h.fits hgo x
    rcases hplace x with hsame | ⟨hbefore, hread⟩
    · rw [hsame]
      exact hfits
    · rw [hbefore] at hfits
      rw [hread, hgo]
      exact hfits
  · rw [hret]
    exact h.ret_le
  · rw [hret, hchanged]
    exact h.zero
  · rw [hkilled, hchanged]
    exact h.killed

variable [DecidableEq τ]

/-- The first answer is given to one thread alone, and those after it find the result. -/
theorem Outcome.callback {s₁ : Process τ} {next : Option Body} (h : Outcome s)
    (hplace : s.place x = .during body) (hkilled : s.killed = false)
    (halone : s.ret = 1 → ∀ y, (∃ b, s.place y = .during b) → y = x)
    (hanswer : body = .syscall → answer ≤ 0)
    (hbody : s.doSetxid x answer body = (s₁, next)) (hret : s'.ret = s₁.ret)
    (hchanged : s'.changed = s₁.changed) (hkilled' : s'.killed = s₁.killed)
    (haborted : s'.aborted = s.aborted)
    (hlate : ¬ (s'.caller = .signal ∨ s'.caller = .waitCaught))
    (hother : ∀ y, y ≠ x → s'.place y = s.place y)
    (hx : s'.place x = match next with | some b => .during b | none => .after) : Outcome s' := by
  have hgo : s.aborted = false := by
    cases habort : s.aborted with
    | false => rfl
    | true => exact absurd hplace (((h.aborted habort).2 x).2 body)
  have hfits := h.fits hgo
  have hfitsx := hfits x
  rw [hplace] at hfitsx
  have hle := h.ret_le
  have hfinish : s'.ret ≤ 1 → (s'.ret = 0 → ∃ x, s'.changed x = true) →
      (s'.killed = true → (∃ x, s'.changed x = true) ∧ ∃ x, s'.changed x = false) →
      (∀ y, y ≠ x → Fits s'.ret (s'.changed y) (s.place y)) →
      Fits s'.ret (s'.changed x) (s'.place x) → Outcome s' := by
    intro hle hzero hkill hothers hself
    refine ⟨fun hearly => absurd hearly hlate, fun habort => ?_, fun _ y => ?_, hle, hzero, hkill⟩
    · rw [haborted, hgo] at habort
      cases habort
    · by_cases hy : y = x
      · rw [hy]
        exact hself
      · rw [hother y hy]
        exact hothers y hy
  rw [hx, hret, hchanged, hkilled'] at hfinish
  cases body with
  | read =>
    unfold Process.doSetxid at hbody
    by_cases hneg : s.ret < 0
    · simp only [if_pos hneg] at hbody
      cases hbody
      have hfalse : s.changed x = false := hfitsx
      refine hfinish hle h.zero h.killed (fun y _ => hfits y) ⟨Int.le_of_lt hneg, ?_⟩
      rw [hfalse]
      exact ⟨nofun, fun hzero => absurd hneg (by rw [hzero]; decide)⟩
    · simp only [if_neg hneg] at hbody
      cases hbody
      exact hfinish hle h.zero h.killed (fun y _ => hfits y) ⟨Int.not_lt.mp hneg, hfitsx⟩
  | syscall =>
    cases hbody
    obtain ⟨hpos, hfalse⟩ := hfitsx
    have hmono : ∀ y, s.changed y = true →
        (if answer = 0 then Function.update s.changed x true else s.changed) y = true := by
      intro y hy
      split
      · by_cases heq : y = x
        · rw [heq, Function.update_self]
        · rw [Function.update_of_ne heq]
          exact hy
      · exact hy
    refine hfinish hle (fun hzero => ?_) (fun hkill => ?_) (fun y hy => ?_)
      ⟨hpos, hanswer rfl, ?_⟩
    · obtain ⟨y, hy⟩ := h.zero hzero
      exact ⟨y, hmono y hy⟩
    · rw [hkilled] at hkill
      cases hkill
    · have hsame : (if answer = 0 then Function.update s.changed x true else s.changed) y =
          s.changed y := by
        split
        · exact Function.update_of_ne hy _ _
        · rfl
      show Fits s.ret ((if answer = 0 then Function.update s.changed x true else s.changed) y)
        (s.place y)
      rw [hsame]
      exact hfits y
    · by_cases hzero : answer = 0
      · simp [hzero]
      · simp [hzero, hfalse]
  | check r =>
    unfold Process.doSetxid at hbody
    by_cases hkill : r ≠ 0 ∧ s.ret = 0
    · simp only [if_pos hkill] at hbody
      cases hbody
      refine hfinish hle h.zero (fun _ => ⟨h.zero hkill.2, x, ?_⟩) (fun y _ => hfits y) hfitsx
      exact eq_false_of_ne_true fun htrue => hkill.1 (hfitsx.2.2.mp htrue)
    · simp only [if_neg hkill] at hbody
      cases hbody
      refine hfinish hle h.zero h.killed (fun y _ => hfits y)
        ⟨hfitsx.1, hfitsx.2.1, hfitsx.2.2, fun hzero => ?_⟩
      by_contra hr
      exact hkill ⟨hr, hzero⟩
  | store r =>
    cases hbody
    obtain ⟨hpos, hr, hiff, hzero⟩ := hfitsx
    refine hfinish (Int.le_trans hr (by decide)) (fun hr => ⟨x, hiff.mpr hr⟩) h.killed
      (fun y hy => ?_) ⟨hr, hiff⟩
    show Fits r (s.changed y) (s.place y)
    have hfitsy := hfits y
    by_cases hret : s.ret = 0
    · rw [hzero hret, ← hret]
      exact hfitsy
    · -- the first answer: no other thread has come to the callback
      have hone : s.ret = 1 := by omega
      cases hp : s.place y with
      | before =>
        rw [hp] at hfitsy
        exact hfitsy
      | during b => exact absurd (halone hone y ⟨b, hp⟩) hy
      | after =>
        rw [hp, hone] at hfitsy
        exact absurd hfitsy.1 (by decide)

section Runs

variable [Fintype τ]

omit [DecidableEq τ] [Fintype τ] in
theorem inCallback_iff : s.InCallback x ↔ ∃ body, s.place x = .during body := by
  cases x with
  | none =>
    show (∃ body, s.caller = .func body) ↔ ∃ body, s.caller.place = .during body
    cases s.caller <;> simp [CallerPc.place]
  | some t =>
    show (∃ body, s.pc t = .callback body) ↔ ∃ body, (s.pc t).place = .during body
    cases s.pc t <;> simp [HandlerPc.place]

omit [DecidableEq τ] in
/-- In the first loop of the caller, no thread has come through a wait. -/
theorem Balanced.before_of_early (h : Balanced s)
    (hearly : s.caller = .signal ∨ s.caller = .waitCaught) (x : Option τ) :
    s.place x = .before := by
  have hposts := h.targetSem
  cases x with
  | none =>
    show s.caller.place = .before
    rcases hearly with hpc | hpc <;> rw [hpc] <;> rfl
  | some t =>
    have hzero : s.caller.posts s.count = 0 := by
      rcases hearly with hpc | hpc <;> rw [hpc] <;> rfl
    rw [hzero] at hposts
    have htake := tally_eq_zero_iff.mp (Nat.add_eq_zero_iff.mp hposts).2 t
    show (s.pc t).place = .before
    cases hpc : s.pc t <;> rw [hpc] at htake <;> first | rfl | cases htake

/-- While there is no result, one thread at most is in the callback. -/
theorem Outcome.alone (h : Outcome s) (hb : Balanced s) (hplace : s.place x = .during body)
    (hone : s.ret = 1) (y : Option τ) (hy : ∃ b, s.place y = .during b) : y = x := by
  have hgo : s.aborted = false := by
    cases habort : s.aborted with
    | false => rfl
    | true => exact absurd hplace (((h.aborted habort).2 x).2 body)
  have hfits := h.fits hgo none
  have hholds : s.caller.holds = true := by
    cases hpc : s.caller with
    | release i | waitGone i | returned =>
      -- the caller is through with the callback, so there is a result
      have hafter : s.place none = .after := by
        show s.caller.place = .after
        rw [hpc]
        rfl
      rw [hafter, hone] at hfits
      exact absurd hfits.1 (by decide)
    | _ => rfl
  exact serial hb hholds (inCallback_iff.mpr hy) (inCallback_iff.mpr ⟨body, hplace⟩)

omit [Fintype τ] in
theorem place_update {pc : HandlerPc} (hpc : s'.pc = Function.update s.pc t pc)
    (hcaller : s'.caller = s.caller) :
    s'.place (some t) = pc.place ∧ ∀ y, y ≠ some t → s'.place y = s.place y := by
  refine ⟨?_, fun y hy => ?_⟩
  · show (s'.pc t).place = pc.place
    rw [hpc, Function.update_self]
  · cases y with
    | none => exact congrArg CallerPc.place hcaller
    | some u =>
      show (s'.pc u).place = (s.pc u).place
      rw [hpc, Function.update_of_ne fun heq => hy (congrArg some heq)]

theorem outcome_handler (h : Outcome s) (hb : Balanced s) (he : s.Enabled (.handler t answer)) :
    Outcome (s.handlerNext t answer) := by
  have hstep := handlerStep he (hb.target t)
  have hmove : ∀ {s' : Process τ} {pc : HandlerPc}, s'.pc = Function.update s.pc t pc →
      s'.caller = s.caller → s'.ret = s.ret → s'.changed = s.changed → s'.killed = s.killed →
      s'.aborted = s.aborted → (s.pc t).place.Moves s.aborted pc.place → Outcome s' := by
    intro s' pc hpc hcaller hret hchanged hkilled haborted hmoves
    obtain ⟨hself, hother⟩ := place_update hpc hcaller
    refine h.keep hret hchanged hkilled haborted (fun hearly => hcaller ▸ hearly) fun y => ?_
    by_cases hy : y = some t
    · rw [hy, hself]
      exact hmoves
    · exact Or.inl (hother y hy)
  have hgoto : ∀ {body : Body} {s₁ : Process τ} {next : Option Body}, s.pc t = .callback body →
      s.doSetxid (some t) answer body = (s₁, next) → ∀ pc : HandlerPc,
      ¬ ((s₁.goto t pc).caller = .signal ∨ (s₁.goto t pc).caller = .waitCaught) ∧
        (s₁.goto t pc).place (some t) = pc.place ∧
        ∀ y, y ≠ some t → (s₁.goto t pc).place y = s.place y := by
    intro body s₁ next hpc hbody pc
    have hsame := doSetxid_same hbody
    refine ⟨fun hearly => ?_, place_update (show _ = _ by rw [← hsame.pc]; rfl) hsame.caller⟩
    have hbefore : (s.pc t).place = .before :=
      hb.before_of_early (show s.caller = _ ∨ s.caller = _ from hsame.caller ▸ hearly) (some t)
    rw [hpc] at hbefore
    cases hbefore
  generalize s.handlerNext t answer = s' at hstep
  cases hstep with
  | caught hpc | ran hpc | released hpc | gone hpc =>
    exact hmove rfl rfl rfl rfl rfl rfl (Or.inl (by rw [hpc]; rfl))
  | start hpc _ hgo =>
    refine hmove rfl rfl rfl rfl rfl rfl (Or.inr ?_)
    rw [hpc, hgo]
    exact ⟨rfl, rfl⟩
  | skip hpc _ habort =>
    refine hmove rfl rfl rfl rfl rfl rfl (Or.inr ?_)
    rw [hpc, habort]
    exact ⟨rfl, rfl⟩
  | @body body body' s' hpc hanswer hbody =>
    have hplace : s.place (some t) = .during body := congrArg HandlerPc.place hpc
    obtain ⟨hlate, hself, hother⟩ := hgoto hpc hbody (.callback body')
    exact h.callback hplace he.1 (h.alone hb hplace) hanswer hbody rfl rfl rfl
      (doSetxid_same hbody).aborted hlate hother hself
  | @leave body s' hpc hbody =>
    have hplace : s.place (some t) = .during body := congrArg HandlerPc.place hpc
    have hanswer : body = .syscall → answer ≤ 0 := by
      rintro rfl
      cases hbody
    obtain ⟨hlate, hself, hother⟩ := hgoto hpc hbody .postRan
    exact h.callback hplace he.1 (h.alone hb hplace) hanswer hbody rfl rfl rfl
      (doSetxid_same hbody).aborted hlate hother hself

omit [DecidableEq τ] in
/-- The call is aborted before any thread has come to the callback. -/
theorem Outcome.abort (h : Outcome s) (hb : Balanced s) (hpc : s.caller = .signal) :
    Outcome { s with targetTid := none, aborted := true, caller := .post 0 } := by
  have hbefore := hb.before_of_early (Or.inl hpc)
  have hunchanged : ∀ x, s.changed x = false := by
    intro x
    cases habort : s.aborted with
    | true => exact ((h.aborted habort).2 x).1
    | false =>
      have hfits := h.fits habort x
      rw [hbefore x] at hfits
      exact hfits
  refine ⟨fun _ => h.early (Or.inl hpc), fun _ => ⟨h.early (Or.inl hpc), fun x => ?_⟩, nofun,
    h.ret_le, h.zero, h.killed⟩
  refine ⟨hunchanged x, fun body hbody => ?_⟩
  have hplace : s.place x = .during body := by
    cases x with
    | none => cases hbody
    | some t => exact hbody
  rw [hbefore x] at hplace
  cases hplace

theorem outcome_caller (h : Outcome s) (hi : Invariant s) (he : s.Enabled (.caller answer)) :
    Outcome (s.next answer) := by
  have hstep := callerStep he
  have hmove : ∀ {s' : Process τ}, s'.pc = s.pc → s'.ret = s.ret → s'.changed = s.changed →
      s'.killed = s.killed → s'.aborted = s.aborted →
      (s'.caller = .signal ∨ s'.caller = .waitCaught →
        s.caller = .signal ∨ s.caller = .waitCaught) →
      s.caller.place.Moves s.aborted s'.caller.place → Outcome s' := by
    intro s' hpc hret hchanged hkilled haborted hearly hmoves
    refine h.keep hret hchanged hkilled haborted hearly fun y => ?_
    cases y with
    | none => exact hmoves
    | some t => exact Or.inl (congrArg (fun pc => (pc t).place) hpc)
  generalize s.next answer = s' at hstep
  cases hstep with
  | @signal td hpc htd =>
    refine h.keep rfl rfl rfl rfl (fun _ => Or.inl hpc) fun y => Or.inl ?_
    cases y with
    | none =>
      show CallerPc.place .waitCaught = s.caller.place
      rw [hpc]
      rfl
    | some t =>
      show (Function.update s.pc td .signalled t).place = (s.pc t).place
      by_cases heq : t = td
      · rw [heq, Function.update_self, (hi.balanced.next_running hi.nodup hpc htd).1]
        rfl
      · rw [Function.update_of_ne heq]
  | again hpc => exact hmove rfl rfl rfl rfl rfl (fun _ => Or.inl hpc) (Or.inl rfl)
  | abort hpc => exact h.abort hi.balanced hpc
  | caught hpc => exact hmove rfl rfl rfl rfl rfl (fun _ => Or.inr hpc) (Or.inl (by rw [hpc]; rfl))
  | caughtAll hpc | post hpc | ran hpc | release hpc | releasedAll hpc | gone hpc | returned hpc =>
    exact hmove rfl rfl rfl rfl rfl nofun (Or.inl (by rw [hpc]; rfl))
  | start hpc _ hgo =>
    refine hmove rfl rfl rfl rfl rfl nofun (Or.inr ?_)
    rw [hpc, hgo]
    exact ⟨rfl, rfl⟩
  | skip hpc _ habort =>
    refine hmove rfl rfl rfl rfl rfl nofun (Or.inr ?_)
    rw [hpc, habort]
    exact ⟨rfl, rfl⟩
  | @body body body' s' hpc hanswer hbody =>
    have hsame := doSetxid_same hbody
    have hplace : s.place none = .during body := congrArg CallerPc.place hpc
    refine h.callback hplace he.1 (h.alone hi.balanced hplace) hanswer hbody rfl rfl rfl
      hsame.aborted nofun (fun y hy => ?_) rfl
    cases y with
    | none => exact absurd rfl hy
    | some t => exact congrArg (fun pc => (pc t).place) hsame.pc
  | @leave body s' hpc hbody =>
    have hsame := doSetxid_same hbody
    have hplace : s.place none = .during body := congrArg CallerPc.place hpc
    have hanswer : body = .syscall → answer ≤ 0 := by
      rintro rfl
      cases hbody
    refine h.callback hplace he.1 (h.alone hi.balanced hplace) hanswer hbody rfl rfl rfl
      hsame.aborted nofun (fun y hy => ?_) rfl
    cases y with
    | none => exact absurd rfl hy
    | some t => exact congrArg (fun pc => (pc t).place) hsame.pc

theorem outcome_run {s₀ : Process τ} {es : List (Act τ)} (h₀ : synccall.init s₀)
    (hr : synccall.Run s₀ es s) : Outcome s := by
  have hstep : ∀ (s : Process τ) e, (Invariant s ∧ Outcome s) → synccall.enabled s e →
      Invariant (synccall.step s e) ∧ Outcome (synccall.step s e) := by
    rintro s e ⟨hi, h⟩ he
    refine ⟨invariant_step hi he, ?_⟩
    cases e with
    | caller answer => exact outcome_caller h hi he
    | handler t answer => exact outcome_handler h hi.balanced he
  refine (hr.invariant hstep ⟨invariant_initial h₀, ?_⟩).2
  obtain ⟨hs₀, -⟩ := h₀
  rw [hs₀]
  refine ⟨fun _ => rfl, nofun, fun _ x => ?_, Int.le_refl 1, nofun, nofun⟩
  cases x <;> rfl

/-- When `__setxid` returns, the ids of all threads have changed and it says so, or the ids of none
have and it returns an error. The process is killed only where the ids of the threads differ. -/
theorem setxid_allOrNothing {s₀ : Process τ} {es : List (Act τ)} (h₀ : synccall.init s₀)
    (hr : synccall.Run s₀ es s) :
    (s.caller = .returned → s.killed = false →
        (s.result = 0 ∧ ∀ x, s.changed x = true) ∨ (s.result < 0 ∧ ∀ x, s.changed x = false)) ∧
      (s.killed = true → (∃ x, s.changed x = true) ∧ ∃ x, s.changed x = false) := by
  have h := outcome_run h₀ hr
  have hi := invariant_run h₀ hr
  refine ⟨fun hpc _ => ?_, h.killed⟩
  cases habort : s.aborted with
  | true =>
    obtain ⟨hone, hnone⟩ := h.aborted habort
    refine Or.inr ⟨?_, fun x => (hnone x).1⟩
    unfold Process.result
    rw [hone]
    decide
  | false =>
    have hafter : ∀ x, s.place x = .after := by
      intro x
      cases x with
      | none => exact congrArg CallerPc.place hpc
      | some t =>
        show (s.pc t).place = .after
        rcases (returned_settled hi hpc).2.2 t with ht | ⟨haborted, -⟩
        · rw [ht]
          rfl
        · rw [habort] at haborted
          cases haborted
    have hfits : ∀ x, s.ret ≤ 0 ∧ (s.changed x = true ↔ s.ret = 0) := by
      intro x
      have hfits := h.fits habort x
      rw [hafter x] at hfits
      exact hfits
    have hle := (hfits none).1
    have hresult : s.result = s.ret := if_neg (Int.not_lt.mpr hle)
    rw [hresult]
    rcases Int.lt_or_eq_of_le hle with hneg | hzero
    · refine Or.inr ⟨hneg, fun x => eq_false_of_ne_true fun hx => ?_⟩
      rw [(hfits x).2.mp hx] at hneg
      exact Int.lt_irrefl 0 hneg
    · exact Or.inl ⟨hzero, fun x => (hfits x).2.mpr hzero⟩

/-- The kernel refuses the change to the first thread that asks, with `EPERM`. -/
def refused : List (Act Bool) :=
  [.caller 0, .handler false 0, .caller 0, .caller 0, .handler true 0, .caller 0, .caller 0,
    .caller 0, .handler false 0, .handler false 0, .handler false (-1), .handler false 0,
    .handler false 0, .handler false 0, .caller 0, .caller 0, .handler true 0, .handler true 0,
    .handler true 0, .caller 0, .caller 0, .caller 0, .caller 0, .caller 0, .caller 0,
    .handler false 0, .handler false 0, .handler true 0, .handler true 0, .caller 0, .caller 0,
    .caller 0]

theorem setxid_allOrNothing_refused :
    let s := refused.foldl Process.step twoThreads
    (s.caller = .returned → s.killed = false →
        (s.result = 0 ∧ ∀ x, s.changed x = true) ∨ (s.result < 0 ∧ ∀ x, s.changed x = false)) ∧
      (s.killed = true → (∃ x, s.changed x = true) ∧ ∃ x, s.changed x = false) :=
  setxid_allOrNothing ⟨rfl, by decide, by decide⟩ (System.Run.of_enabledAll (by decide))

end Runs

example : (refused.foldl Process.step twoThreads).caller = .returned ∧
    (refused.foldl Process.step twoThreads).result = -1 := by decide

end Musl.Synccall
