import Mathlib.Algebra.BigOperators.Group.List.Basic
import Mathlib.Algebra.Order.Ring.Int
import OpenHarmonyMac.Infra.Transition

/-!
# The flow control of a process

`HiLogFlowCtrlProcess` counts the lengths of the lines of a statistics period, and the lines that
it drops when they are over the quota. The first line of the next period reports the dropped ones.

* `Call.advance` — a call, one atomic step at a time, `system` — any number of calls at once
* `process` — a call that runs alone
* `flowCtrl_iff` — each dropped line is reported once or pending, and a period stays within its
  quota, just in case neither counter wraps
-/

namespace Hilog

open Infra

variable {T : Type} [LT T] [DecidableLT T]

/-! ## The function -/

/-- The static variables of `HiLogFlowCtrlProcess`. -/
structure Statics (T : Type) where
  processQuota : UInt32 := 0
  gSumLen : Int32 := 0
  gDropped : Int32 := 0
  gStartTime : T
  isFirstFlag : Bool := false

/-- Where a call is. A constructor stands for the access to a static variable that comes next. -/
inductive Pc
  | testAndSet
  | setQuota
  | loadStartTime
  | exchangeDropped
  | storeStartTime (dropped : Int32)
  | storeSumLen (dropped : Int32)
  | loadSumLen
  | checkQuota (sumLen : UInt32)
  | addDropped
  | addSumLen
  | returned (ret : Int32)
  deriving DecidableEq, Repr

/-- A call of the function, with its arguments. -/
structure Call (T : Type) where
  len : Int32
  ts : T
  pc : Pc := .testAndSet

section Function

/- `LogTimeStamp` and `GetProcessQuota` are not here: what `tsStart += period` adds, and what the
quota of the process is. -/
variable (plusPeriod : T → T) (quota : UInt32)

/-- The next access of a call. -/
def Call.advance (v : Statics T) (c : Call T) : Statics T × Pc :=
  match c.pc with
  | .testAndSet =>
    ({ v with isFirstFlag := true }, if v.isFirstFlag then .loadStartTime else .setQuota)
  | .setQuota => ({ v with processQuota := quota }, .loadStartTime)
  | .loadStartTime =>
    (v, if plusPeriod v.gStartTime < c.ts then .exchangeDropped else .loadSumLen)
  | .exchangeDropped => ({ v with gDropped := 0 }, .storeStartTime v.gDropped)
  | .storeStartTime dropped => ({ v with gStartTime := c.ts }, .storeSumLen dropped)
  | .storeSumLen dropped => ({ v with gSumLen := c.len }, .returned dropped)
  | .loadSumLen => (v, .checkQuota v.gSumLen.toUInt32)
  | .checkQuota sumLen => (v, if v.processQuota < sumLen then .addDropped else .addSumLen)
  | .addDropped => ({ v with gDropped := v.gDropped + 1 }, .returned (-1))
  | .addSumLen => ({ v with gSumLen := v.gSumLen + c.len }, .returned 0)
  | .returned ret => (v, .returned ret)

/-- The first call reads the quota. -/
def Statics.first (v : Statics T) : Statics T :=
  if v.isFirstFlag then v else { v with isFirstFlag := true, processQuota := quota }

/-- `HiLogFlowCtrlProcess`, called by one thread after the other. -/
def process (v : Statics T) (len : Int32) (ts : T) : Int32 × Statics T :=
  let v := v.first quota
  if plusPeriod v.gStartTime < ts then
    (v.gDropped, { v with gDropped := 0, gStartTime := ts, gSumLen := len })
  else if v.processQuota < v.gSumLen.toUInt32 then
    (-1, { v with gDropped := v.gDropped + 1 })
  else (0, { v with gSumLen := v.gSumLen + len })

end Function

omit [LT T] [DecidableLT T] in
/-- The first call changes nothing but the quota. -/
theorem first_eq (quota : UInt32) (v : Statics T) :
    v.first quota = { v with
      isFirstFlag := true, processQuota := if v.isFirstFlag then v.processQuota else quota } := by
  unfold Statics.first
  cases hflag : v.isFirstFlag with
  | false => rfl
  | true =>
    cases v
    cases hflag
    rfl

/-! ## Any number of calls -/

/-- The static variables and the calls that were made. -/
structure FlowCtrl (T : Type) where
  statics : Statics T
  calls : List (Call T) := []

/-- A thread calls the function, or the `i`-th call makes its next access. -/
inductive Event (T : Type)
  | call (len : Int32) (ts : T)
  | step (i : Nat)

namespace FlowCtrl

/-- A call that was made and has not returned can go on. -/
def Enabled (s : FlowCtrl T) : Event T → Prop
  | .call _ _ => True
  | .step i => ∃ c, s.calls[i]? = some c ∧ ∀ ret, c.pc ≠ .returned ret

/-- The state after an event. -/
def step (plusPeriod : T → T) (quota : UInt32) (s : FlowCtrl T) : Event T → FlowCtrl T
  | .call len ts => { s with calls := s.calls ++ [{ len := len, ts := ts }] }
  | .step i =>
    match s.calls[i]? with
    | none => s
    | some c =>
      { statics := (c.advance plusPeriod quota s.statics).1
        calls := s.calls.set i { c with pc := (c.advance plusPeriod quota s.statics).2 } }

end FlowCtrl

/-- The threads of a process. The start time is what its initialization leaves. -/
def system (plusPeriod : T → T) (quota : UInt32) : System (FlowCtrl T) (Event T) where
  init s := ∃ start, s = { statics := { gStartTime := start } }
  enabled := FlowCtrl.Enabled
  step := FlowCtrl.step plusPeriod quota

/-! ## The law of the dropped lines -/

/-- The value that a call returns, from the access on that decides it. -/
def Pc.result? : Pc → Option Int32
  | .storeStartTime dropped | .storeSumLen dropped => some dropped
  | .returned ret => some ret
  | _ => none

/-- The positive values that were returned and the drops that are pending add up to the number of
calls that returned -1. -/
def Accounts (results : List Int32) (pending : Int32) : Prop :=
  ((results.filter fun r => 0 < r).map Int32.toInt).sum + pending.toInt = results.count (-1)

/-- What the calls return, those included that have not come to their `return`. -/
def FlowCtrl.results (s : FlowCtrl T) : List Int32 := s.calls.filterMap fun c => c.pc.result?

/-- Each dropped line is reported once, or pending. -/
def FlowCtrl.Accounted (s : FlowCtrl T) : Prop := Accounts s.results s.statics.gDropped

/-- Where this step counts a dropped line, the counter does not wrap. -/
def FlowCtrl.CountsDrop (s : FlowCtrl T) (e : Event T) : Prop :=
  ∀ i c, e = .step i → s.calls[i]? = some c → c.pc = .addDropped →
    s.statics.gDropped ≠ Int32.maxValue

/-! ### The balance -/

/-- What a returned value adds to the account. -/
def worth (r : Int32) : Int := (if 0 < r then r.toInt else 0) - if r = -1 then 1 else 0

def balance (rs : List Int32) : Int := (rs.map worth).sum

theorem balance_append (rs rs' : List Int32) : balance (rs ++ rs') = balance rs + balance rs' := by
  simp [balance]

theorem balance_singleton (r : Int32) : balance [r] = worth r := by
  simp [balance]

theorem accounts_iff {rs : List Int32} {pending : Int32} :
    Accounts rs pending ↔ balance rs + pending.toInt = 0 := by
  have h : ((rs.filter fun r => 0 < r).map Int32.toInt).sum = balance rs + rs.count (-1) := by
    induction rs with
    | nil => rfl
    | cons r rs ih =>
      rw [List.filter_cons, List.count_cons, balance, List.map_cons, List.sum_cons, worth]
      simp only [decide_eq_true_eq, beq_iff_eq]
      change _ = _ + balance rs + _
      split <;> split <;> simp_all <;> omega
  unfold Accounts
  rw [h]
  omega

theorem worth_of_nonneg {r : Int32} (h : 0 ≤ r.toInt) : worth r = r.toInt := by
  have hne : r ≠ -1 := by
    rintro rfl
    exact absurd h (by decide)
  unfold worth
  rw [if_neg hne, Int.sub_zero]
  split
  · rfl
  · next hpos =>
    rw [Int32.lt_iff_toInt_lt] at hpos
    have hzero : (0 : Int32).toInt = 0 := rfl
    omega

/-- One more drop is counted just in case the counter does not wrap. -/
theorem toInt_add_one_eq_iff (g : Int32) : (g + 1).toInt = g.toInt + 1 ↔ g ≠ Int32.maxValue := by
  have hlt := g.toInt_lt
  have hle := g.le_toInt
  have hone : (1 : Int32).toInt = 1 := rfl
  have hmax : Int32.maxValue.toInt = 2 ^ 31 - 1 := rfl
  rw [Int32.toInt_add, hone]
  constructor
  · rintro h rfl
    rw [hmax] at h
    exact absurd h (by decide)
  · intro hne
    have hne' : g.toInt ≠ 2 ^ 31 - 1 := fun heq => hne (Int32.toInt_inj.mp (heq.trans hmax.symm))
    exact Int.bmod_eq_of_le (by omega) (by omega)

/-! ### One access -/

section Accesses

variable {plusPeriod : T → T} {quota : UInt32} {v : Statics T} {c : Call T}

/-- What a call adds to the account. -/
def Pc.worth (pc : Pc) : Int := balance pc.result?.toList

/-- **An access keeps the account just in case it does not wrap the counter of the drops.** -/
theorem Call.advance_worth_iff (hv : 0 ≤ v.gDropped.toInt) :
    (c.advance plusPeriod quota v).2.worth + (c.advance plusPeriod quota v).1.gDropped.toInt =
      c.pc.worth + v.gDropped.toInt ↔
    (c.pc = .addDropped → v.gDropped ≠ Int32.maxValue) := by
  unfold Call.advance
  cases hpc : c.pc with
  | testAndSet =>
    refine iff_of_true ?_ nofun
    show Pc.worth (if _ then _ else _) + _ = _
    split <;> rfl
  | loadStartTime =>
    refine iff_of_true ?_ nofun
    show Pc.worth (if _ then _ else _) + _ = _
    split <;> rfl
  | checkQuota sumLen =>
    refine iff_of_true ?_ nofun
    show Pc.worth (if _ then _ else _) + _ = _
    split <;> rfl
  | exchangeDropped =>
    refine iff_of_true ?_ nofun
    show balance [v.gDropped] + 0 = 0 + _
    rw [balance_singleton, worth_of_nonneg hv, Int.add_zero, Int.zero_add]
  | addDropped =>
    rw [← toInt_add_one_eq_iff]
    show balance [-1] + (v.gDropped + 1).toInt = 0 + v.gDropped.toInt ↔ _
    have hdrop : balance [-1] = -1 := rfl
    rw [hdrop]
    constructor
    · intro h _
      omega
    · intro h
      have := h rfl
      omega
  | addSumLen => exact iff_of_true rfl nofun
  | setQuota | storeStartTime | storeSumLen | loadSumLen | returned => exact iff_of_true rfl nofun

/-- Where it does not wrap, the counter of the drops is not negative. -/
theorem Call.advance_nonneg (hv : 0 ≤ v.gDropped.toInt)
    (h : c.pc = .addDropped → v.gDropped ≠ Int32.maxValue) :
    0 ≤ (c.advance plusPeriod quota v).1.gDropped.toInt := by
  unfold Call.advance
  cases hpc : c.pc with
  | addDropped =>
    show 0 ≤ (v.gDropped + 1).toInt
    rw [(toInt_add_one_eq_iff _).mpr (h hpc)]
    omega
  | exchangeDropped => exact Int.le_refl 0
  | _ => exact hv

end Accesses

/-! ### All accesses -/

namespace FlowCtrl

variable {plusPeriod : T → T} {quota : UInt32} {s t : FlowCtrl T}

/-- The calls before and after the `i`-th one. -/
theorem step_eq {i : Nat} {c : Call T} (hc : s.calls[i]? = some c) :
    ∃ before after, s.calls = before ++ c :: after ∧
      step plusPeriod quota s (.step i) =
        { statics := (c.advance plusPeriod quota s.statics).1
          calls :=
            before ++ { c with pc := (c.advance plusPeriod quota s.statics).2 } :: after } := by
  let c' : Call T := { c with pc := (c.advance plusPeriod quota s.statics).2 }
  obtain ⟨hlt, hi⟩ := List.getElem?_eq_some_iff.mp hc
  obtain ⟨before, after, hcalls, -, hset⟩ := @List.exists_of_set _ i c' s.calls hlt
  rw [hi] at hcalls
  refine ⟨before, after, hcalls, ?_⟩
  simp only [step, hc]
  exact congrArg _ hset

omit [LT T] [DecidableLT T] in
theorem balance_results (before after : List (Call T)) (c : Call T) (v : Statics T) :
    balance (results ⟨v, before ++ c :: after⟩) =
      balance (results ⟨v, before⟩) + c.pc.worth + balance (results ⟨v, after⟩) := by
  have hcons : (c :: after).filterMap (fun c => c.pc.result?) =
      c.pc.result?.toList ++ after.filterMap fun c => c.pc.result? := by
    rw [List.filterMap_cons]
    cases c.pc.result? <;> rfl
  simp only [results, List.filterMap_append, balance_append, hcons, Pc.worth]
  omega

/-- **A step keeps each dropped line reported once or pending just in case it does not wrap the
counter.** -/
theorem accounted_step_iff {e : Event T} (hs : s.Accounted) (hv : 0 ≤ s.statics.gDropped.toInt)
    (he : s.Enabled e) : (step plusPeriod quota s e).Accounted ↔ s.CountsDrop e := by
  cases e with
  | call len ts =>
    refine iff_of_true ?_ (by rintro i c ⟨⟩)
    have hresults : (step plusPeriod quota s (.call len ts)).results = s.results := by
      simp [step, results, Pc.result?]
    unfold Accounted
    rw [hresults]
    exact hs
  | step i =>
    obtain ⟨c, hc, -⟩ := he
    obtain ⟨before, after, hcalls, hstep⟩ := step_eq hc
    have hcounts : s.CountsDrop (.step i) ↔
        (c.pc = .addDropped → s.statics.gDropped ≠ Int32.maxValue) := by
      constructor
      · exact fun h => h i c rfl hc
      · rintro h j c' ⟨⟩ hc'
        cases hc.symm.trans hc'
        exact h
    have hbefore : balance s.results = balance (results ⟨s.statics, before⟩) + c.pc.worth +
        balance (results ⟨s.statics, after⟩) := by
      rw [← balance_results, ← hcalls]
    have hadvance := @Call.advance_worth_iff T _ _ plusPeriod quota s.statics c hv
    rw [hcounts, ← hadvance, hstep, Accounted, accounts_iff, balance_results]
    rw [Accounted, accounts_iff, hbefore] at hs
    simp only [results] at hs ⊢
    omega

theorem nonneg_step {e : Event T} (hv : 0 ≤ s.statics.gDropped.toInt) (he : s.Enabled e)
    (h : s.CountsDrop e) : 0 ≤ (step plusPeriod quota s e).statics.gDropped.toInt := by
  cases e with
  | call len ts => exact hv
  | step i =>
    obtain ⟨c, hc, -⟩ := he
    obtain ⟨before, after, -, hstep⟩ := step_eq hc
    rw [hstep]
    exact Call.advance_nonneg hv fun hpc => h i c rfl hc hpc

/-- **In any interleaving each dropped line is reported once or pending, just in case the counter
of the drops does not wrap.** -/
theorem throughout_accounted_iff {es : List (Event T)} (hi : (system plusPeriod quota).init s)
    (hr : (system plusPeriod quota).Run s es t) :
    (system plusPeriod quota).Throughout Accounted s es ↔
      ((system plusPeriod quota).restrict CountsDrop).Run s es t := by
  obtain ⟨start, rfl⟩ := hi
  exact hr.throughout_iff_of_kept (J := fun s => 0 ≤ s.statics.gDropped.toInt)
    (fun u e hv he h => nonneg_step hv he h) (fun u e hv hs he => accounted_step_iff hs hv he)
    (Int.le_refl 0) rfl

end FlowCtrl

/-! ## One call after the other -/

/-- The static variables, the values returned so far, and the lengths of the lines admitted in this
statistics period. -/
structure Sequential (T : Type) where
  statics : Statics T
  returns : List Int32 := []
  period : List Nat := []

namespace Sequential

/-- The call starts a new statistics period. -/
def NewPeriod (plusPeriod : T → T) (s : Sequential T) (ts : T) : Prop :=
  plusPeriod s.statics.gStartTime < ts

instance (plusPeriod : T → T) (s : Sequential T) (ts : T) : Decidable (s.NewPeriod plusPeriod ts) :=
  inferInstanceAs (Decidable (_ < _))

/-- A call with its arguments. The caller prints the line unless the returned value is negative. -/
def call (plusPeriod : T → T) (quota : UInt32) (s : Sequential T) (line : Int32 × T) :
    Sequential T :=
  let r := process plusPeriod quota s.statics line.1 line.2
  let admitted := if 0 ≤ r.1 then [line.1.toInt.toNat] else []
  { statics := r.2
    returns := s.returns ++ [r.1]
    period := if s.NewPeriod plusPeriod line.2 then admitted else s.period ++ admitted }

/-- Each dropped line is reported once or pending, and the lines admitted in the period add up to
the quota and the last one of them at most. -/
def Lawful (quota : UInt32) (s : Sequential T) : Prop :=
  Accounts s.returns s.statics.gDropped ∧
    s.period.sum ≤ quota.toNat + s.period.getLast?.getD 0

/-- In the middle of a period, neither the counter of the drops nor that of the lengths wraps
before the call. -/
def Counts (plusPeriod : T → T) (quota : UInt32) (s : Sequential T) (line : Int32 × T) : Prop :=
  ¬ s.NewPeriod plusPeriod line.2 →
    (quota < s.statics.gSumLen.toUInt32 → s.statics.gDropped ≠ Int32.maxValue) ∧
      s.period.sum < 2 ^ 32

end Sequential

/-- The calls of a process with one thread, with lengths that are not negative. -/
def sequential (plusPeriod : T → T) (quota : UInt32) : System (Sequential T) (Int32 × T) where
  init s := ∃ start, s = { statics := { gStartTime := start } }
  enabled _ line := 0 ≤ line.1
  step := Sequential.call plusPeriod quota

namespace Sequential

variable {plusPeriod : T → T} {quota : UInt32} {s t : Sequential T} {line : Int32 × T}

instance : Decidable (s.Counts plusPeriod quota line) := inferInstanceAs (Decidable (¬ _ → _ ∧ _))

instance : Decidable ((sequential plusPeriod quota).enabled s line) :=
  inferInstanceAs (Decidable ((0 : Int32) ≤ line.1))

/-- What the static variables are between two calls. -/
structure Kept (quota : UInt32) (s : Sequential T) : Prop where
  nonneg : 0 ≤ s.statics.gDropped.toInt
  quota : s.statics.isFirstFlag = true → s.statics.processQuota = quota
  sum : s.statics.gSumLen.toUInt32.toNat = s.period.sum % 2 ^ 32
  lines : ∀ n ∈ s.period, n < 2 ^ 31

omit [LT T] [DecidableLT T] in
theorem Kept.first (h : Kept quota s) : (s.statics.first quota).processQuota = quota := by
  unfold Statics.first
  split
  · next hfirst => exact h.quota hfirst
  · rfl

/-- The first line of a period reports the dropped ones. -/
theorem call_of_newPeriod (hline : s.NewPeriod plusPeriod line.2) :
    s.call plusPeriod quota line =
      { statics :=
          { s.statics.first quota with gDropped := 0, gStartTime := line.2, gSumLen := line.1 }
        returns := s.returns ++ [s.statics.gDropped]
        period := if 0 ≤ s.statics.gDropped then [line.1.toInt.toNat] else [] } := by
  have hprocess : process plusPeriod quota s.statics line.1 line.2 = (s.statics.gDropped,
      { s.statics.first quota with gDropped := 0, gStartTime := line.2, gSumLen := line.1 }) := by
    unfold process
    rw [first_eq]
    exact if_pos hline
  simp only [call, hprocess, if_pos hline]

/-- A line over the quota is dropped. -/
theorem call_of_over (hline : ¬ s.NewPeriod plusPeriod line.2) (h : Kept quota s)
    (hover : quota < s.statics.gSumLen.toUInt32) :
    s.call plusPeriod quota line =
      { statics := { s.statics.first quota with gDropped := s.statics.gDropped + 1 }
        returns := s.returns ++ [-1]
        period := s.period } := by
  have hquota := h.first
  have hprocess : process plusPeriod quota s.statics line.1 line.2 =
      (-1, { s.statics.first quota with gDropped := s.statics.gDropped + 1 }) := by
    rw [first_eq] at hquota
    unfold process
    rw [first_eq]
    exact (if_neg hline).trans (if_pos (hquota.symm ▸ hover))
  have hneg : ¬ (0 : Int32) ≤ -1 := by decide
  simp only [call, hprocess, if_neg hline, if_neg hneg, List.append_nil]

/-- A line under the quota is counted. -/
theorem call_of_under (hline : ¬ s.NewPeriod plusPeriod line.2) (h : Kept quota s)
    (hunder : ¬ quota < s.statics.gSumLen.toUInt32) :
    s.call plusPeriod quota line =
      { statics := { s.statics.first quota with gSumLen := s.statics.gSumLen + line.1 }
        returns := s.returns ++ [0]
        period := s.period ++ [line.1.toInt.toNat] } := by
  have hquota := h.first
  have hprocess : process plusPeriod quota s.statics line.1 line.2 =
      (0, { s.statics.first quota with gSumLen := s.statics.gSumLen + line.1 }) := by
    rw [first_eq] at hquota
    unfold process
    rw [first_eq]
    exact (if_neg hline).trans (if_neg (hquota.symm ▸ hunder))
  have hpos : (0 : Int32) ≤ 0 := by decide
  simp only [call, hprocess, if_neg hline, if_pos hpos]

theorem toNat_toUInt32 {x : Int32} (h : 0 ≤ x.toInt) : x.toUInt32.toNat = x.toInt.toNat := by
  have hcond := BitVec.toInt_eq_toNat_cond x.toBitVec
  have hlt := x.toBitVec.isLt
  change 0 ≤ x.toBitVec.toInt at h
  show x.toBitVec.toNat = x.toBitVec.toInt.toNat
  split at hcond <;> omega

/-! ### What holds between two calls -/

theorem Kept.call_of_newPeriod (h : Kept quota s) (hline : s.NewPeriod plusPeriod line.2) :
    s.call plusPeriod quota line =
      { statics :=
          { s.statics.first quota with gDropped := 0, gStartTime := line.2, gSumLen := line.1 }
        returns := s.returns ++ [s.statics.gDropped]
        period := [line.1.toInt.toNat] } := by
  have hpos : (0 : Int32) ≤ s.statics.gDropped := Int32.le_iff_toInt_le.mpr h.nonneg
  rw [Sequential.call_of_newPeriod hline, if_pos hpos]

/-- A new period begins with the length of its first line. -/
theorem Kept.newPeriod (h : Kept quota s) (hline : s.NewPeriod plusPeriod line.2)
    (hlen : 0 ≤ line.1.toInt) : Kept quota (s.call plusPeriod quota line) := by
  have hlt := line.1.toInt_lt
  rw [h.call_of_newPeriod hline]
  refine ⟨Int.le_refl 0, fun _ => h.first, ?_, ?_⟩
  · show line.1.toUInt32.toNat = _
    rw [toNat_toUInt32 hlen, List.sum_singleton]
    omega
  · intro n hn
    rw [List.mem_singleton.mp hn]
    omega

/-- A dropped line is counted where the counter does not wrap. -/
theorem Kept.over (h : Kept quota s) (hline : ¬ s.NewPeriod plusPeriod line.2)
    (hover : quota < s.statics.gSumLen.toUInt32) (hmax : s.statics.gDropped ≠ Int32.maxValue) :
    Kept quota (s.call plusPeriod quota line) := by
  have hgSumLen : (s.statics.first quota).gSumLen = s.statics.gSumLen := by rw [first_eq]
  rw [call_of_over hline h hover]
  refine ⟨?_, fun _ => h.first, ?_, h.lines⟩
  · show 0 ≤ (s.statics.gDropped + 1).toInt
    rw [(toInt_add_one_eq_iff _).mpr hmax]
    have := h.nonneg
    omega
  · show (s.statics.first quota).gSumLen.toUInt32.toNat = _
    rw [hgSumLen]
    exact h.sum

/-- An admitted line adds its length. -/
theorem Kept.under (h : Kept quota s) (hline : ¬ s.NewPeriod plusPeriod line.2)
    (hunder : ¬ quota < s.statics.gSumLen.toUInt32) (hlen : 0 ≤ line.1.toInt) :
    Kept quota (s.call plusPeriod quota line) := by
  have hlt := line.1.toInt_lt
  have hgDropped : (s.statics.first quota).gDropped = s.statics.gDropped := by rw [first_eq]
  rw [call_of_under hline h hunder]
  refine ⟨?_, fun _ => h.first, ?_, ?_⟩
  · show 0 ≤ (s.statics.first quota).gDropped.toInt
    rw [hgDropped]
    exact h.nonneg
  · show (s.statics.gSumLen + line.1).toUInt32.toNat = _
    rw [Int32.toUInt32_add, UInt32.toNat_add, h.sum, toNat_toUInt32 hlen, List.sum_append,
      List.sum_singleton]
    omega
  · intro n hn
    rcases List.mem_append.mp hn with hn | hn
    · exact h.lines n hn
    · rw [List.mem_singleton.mp hn]
      omega

/-- A call that wraps no counter keeps what holds between two calls. -/
theorem kept_step (h : Kept quota s) (hline : 0 ≤ line.1)
    (hcounts : s.Counts plusPeriod quota line) : Kept quota (s.call plusPeriod quota line) := by
  have hlen : 0 ≤ line.1.toInt := Int32.le_iff_toInt_le.mp hline
  by_cases hnew : s.NewPeriod plusPeriod line.2
  · exact h.newPeriod hnew hlen
  · by_cases hover : quota < s.statics.gSumLen.toUInt32
    · exact h.over hnew hover ((hcounts hnew).1 hover)
    · exact h.under hnew hover hlen

/-! ### The law -/

omit [LT T] [DecidableLT T] in
theorem Kept.last_lt (h : Kept quota s) : s.period.getLast?.getD 0 < 2 ^ 31 := by
  cases hlast : s.period.getLast? with
  | none => decide
  | some n => exact h.lines n (List.mem_of_getLast? hlast)

omit [LT T] [DecidableLT T] in
/-- The quota is compared with the sum of the period in 32 bits. -/
theorem Kept.over_iff (h : Kept quota s) :
    quota < s.statics.gSumLen.toUInt32 ↔ quota.toNat < s.period.sum % 2 ^ 32 := by
  rw [UInt32.lt_iff_toNat_lt, h.sum]

/-- The first line of a period keeps the law. -/
theorem Lawful.newPeriod (hs : s.Lawful quota) (h : Kept quota s)
    (hline : s.NewPeriod plusPeriod line.2) : (s.call plusPeriod quota line).Lawful quota := by
  rw [h.call_of_newPeriod hline]
  constructor
  · rw [accounts_iff, balance_append, balance_singleton, worth_of_nonneg h.nonneg,
      accounts_iff.mp hs.1]
    rfl
  · simp

/-- A dropped line keeps the law just in case its counter does not wrap. -/
theorem Lawful.over_iff (hs : s.Lawful quota) (h : Kept quota s)
    (hline : ¬ s.NewPeriod plusPeriod line.2) (hover : quota < s.statics.gSumLen.toUInt32) :
    (s.call plusPeriod quota line).Lawful quota ↔ s.statics.gDropped ≠ Int32.maxValue := by
  have hbalance := accounts_iff.mp hs.1
  have hdrop : worth (-1) = -1 := rfl
  rw [call_of_over hline h hover, ← toInt_add_one_eq_iff, Lawful, accounts_iff, balance_append,
    balance_singleton, hdrop, and_iff_left hs.2]
  dsimp only
  omega

/-- An admitted line keeps the law just in case the lines before it are within the quota. -/
theorem Lawful.under_iff (hs : s.Lawful quota) (h : Kept quota s)
    (hline : ¬ s.NewPeriod plusPeriod line.2) (hunder : ¬ quota < s.statics.gSumLen.toUInt32) :
    (s.call plusPeriod quota line).Lawful quota ↔ s.period.sum ≤ quota.toNat := by
  have hgDropped : (s.statics.first quota).gDropped = s.statics.gDropped := by rw [first_eq]
  have haccounts : Accounts (s.returns ++ [0]) s.statics.gDropped := by
    have hzero : worth 0 = 0 := rfl
    rw [accounts_iff, balance_append, balance_singleton, hzero, Int.add_zero,
      accounts_iff.mp hs.1]
  have hwithin : (s.period ++ [line.1.toInt.toNat]).sum ≤
      quota.toNat + (s.period ++ [line.1.toInt.toNat]).getLast?.getD 0 ↔
        s.period.sum ≤ quota.toNat := by
    rw [List.sum_append, List.sum_singleton, List.getLast?_concat, Option.getD_some]
    omega
  rw [call_of_under hline h hunder, Lawful]
  dsimp only
  rw [hgDropped, hwithin, and_iff_right haccounts]

/-- **A call keeps the law just in case it wraps no counter.** -/
theorem lawful_step_iff (h : Kept quota s) (hs : s.Lawful quota) :
    (s.call plusPeriod quota line).Lawful quota ↔ s.Counts plusPeriod quota line := by
  have hquota := quota.toNat_lt
  have hlast := h.last_lt
  have hwithin := hs.2
  by_cases hnew : s.NewPeriod plusPeriod line.2
  · exact iff_of_true (hs.newPeriod h hnew) fun hmid => absurd hnew hmid
  · by_cases hover : quota < s.statics.gSumLen.toUInt32
    · have hfits : s.period.sum < 2 ^ 32 := by
        have := h.over_iff.mp hover
        omega
      rw [hs.over_iff h hnew hover]
      exact ⟨fun hc _ => ⟨fun _ => hc, hfits⟩, fun hc => (hc hnew).1 hover⟩
    · have hunder := mt h.over_iff.mpr hover
      have hcounts : s.Counts plusPeriod quota line ↔ s.period.sum < 2 ^ 32 :=
        ⟨fun hc => (hc hnew).2, fun hc _ => ⟨fun hover' => absurd hover' hover, hc⟩⟩
      rw [hs.under_iff h hnew hover, hcounts]
      -- A total that wraps has left the quota behind, and looks small.
      omega

/-- **In a process with one thread each dropped line is reported once or pending and each period
stays within the quota and its last line, just in case neither counter wraps.** -/
theorem throughout_lawful_iff {es : List (Int32 × T)} (hi : (sequential plusPeriod quota).init s)
    (hr : (sequential plusPeriod quota).Run s es t) :
    (sequential plusPeriod quota).Throughout (Lawful quota) s es ↔
      ((sequential plusPeriod quota).restrict (Counts plusPeriod quota)).Run s es t := by
  obtain ⟨start, rfl⟩ := hi
  exact hr.throughout_iff_of_kept (J := Kept quota) (fun u line h he hc => kept_step h he hc)
    (fun u line h hs _ => lawful_step_iff h hs)
    ⟨Int.le_refl 0, nofun, rfl, by simp⟩ ⟨rfl, Nat.zero_le _⟩

end Sequential

/-! ## A call that runs alone -/

section Alone

variable {plusPeriod : T → T} {quota : UInt32} {v : Statics T} {calls : List (Call T)}
  {len : Int32} {ts : T}

/-- The last call has returned. -/
def finished (calls : List (Call T)) (len : Int32) (ts : T) (r : Int32 × Statics T) : FlowCtrl T :=
  ⟨r.2, calls ++ [⟨len, ts, .returned r.1⟩]⟩

/-- The last call makes an access. -/
theorem run_advance {c : Call T} {t : FlowCtrl T} (hpc : ∀ ret, c.pc ≠ .returned ret)
    (h : ∃ es, (system plusPeriod quota).Run
      ⟨(c.advance plusPeriod quota v).1,
        calls ++ [{ c with pc := (c.advance plusPeriod quota v).2 }]⟩ es t) :
    ∃ es, (system plusPeriod quota).Run ⟨v, calls ++ [c]⟩ es t := by
  obtain ⟨es, h⟩ := h
  have hget : (calls ++ [c])[calls.length]? = some c := by simp
  refine ⟨.step calls.length :: es, .cons ⟨c, hget, hpc⟩ ?_⟩
  have hstep : (system plusPeriod quota).step ⟨v, calls ++ [c]⟩ (.step calls.length) =
      ⟨(c.advance plusPeriod quota v).1,
        calls ++ [{ c with pc := (c.advance plusPeriod quota v).2 }]⟩ := by
    simp [system, FlowCtrl.step]
  rw [hstep]
  exact h

/-- From the load of the start time on. -/
theorem run_loadStartTime (hfirst : v.first quota = v) :
    ∃ es, (system plusPeriod quota).Run ⟨v, calls ++ [⟨len, ts, .loadStartTime⟩]⟩ es
      (finished calls len ts (process plusPeriod quota v len ts)) := by
  refine run_advance nofun ?_
  unfold process
  rw [hfirst]
  by_cases hnew : plusPeriod v.gStartTime < ts
  · simp only [Call.advance, if_pos hnew]
    exact run_advance nofun (run_advance nofun (run_advance nofun ⟨_, .nil _⟩))
  · simp only [Call.advance, if_neg hnew]
    refine run_advance nofun (run_advance nofun ?_)
    show ∃ es, (system plusPeriod quota).Run ⟨v, calls ++ [⟨len, ts,
      if v.processQuota < v.gSumLen.toUInt32 then .addDropped else .addSumLen⟩]⟩ es _
    by_cases hover : v.processQuota < v.gSumLen.toUInt32
    · rw [if_pos hover, if_pos hover]
      exact run_advance nofun ⟨_, .nil _⟩
    · rw [if_neg hover, if_neg hover]
      exact run_advance nofun ⟨_, .nil _⟩

/-- **A call that no other one interrupts does what `process` does.** -/
theorem process_run (s : FlowCtrl T) (len : Int32) (ts : T) :
    ∃ es, (system plusPeriod quota).Run s (.call len ts :: es)
      (finished s.calls len ts (process plusPeriod quota s.statics len ts)) := by
  have hfirst : (s.statics.first quota).first quota = s.statics.first quota := by
    simp [first_eq]
  have hprocess : process plusPeriod quota s.statics len ts =
      process plusPeriod quota (s.statics.first quota) len ts := by
    unfold process
    rw [hfirst]
  have hcall : ∃ es, (system plusPeriod quota).Run
      ⟨s.statics, s.calls ++ [⟨len, ts, .testAndSet⟩]⟩ es
      (finished s.calls len ts (process plusPeriod quota s.statics len ts)) := by
    rw [hprocess]
    refine run_advance nofun ?_
    cases hflag : s.statics.isFirstFlag with
    | true =>
      have hsame : s.statics.first quota = { s.statics with isFirstFlag := true } := by
        rw [first_eq, hflag]
        rfl
      simp only [Call.advance, hflag, if_true]
      rw [← hsame]
      exact run_loadStartTime hfirst
    | false =>
      have hset : s.statics.first quota =
          { s.statics with isFirstFlag := true, processQuota := quota } := by
        rw [first_eq, hflag]
        rfl
      simp only [Call.advance, hflag, Bool.false_eq_true, if_false]
      refine run_advance nofun ?_
      simp only [Call.advance]
      rw [← hset]
      exact run_loadStartTime hfirst
  obtain ⟨es, hes⟩ := hcall
  exact ⟨es, .cons trivial hes⟩

end Alone

/-! ## The flow control -/

/-- **In any interleaving of the calls each dropped line is reported once or pending, and in calls
one after the other each period stays within the quota and its last line as well, just in case no
call wraps a counter.** -/
theorem flowCtrl_iff (plusPeriod : T → T) (quota : UInt32) :
    (∀ s es t, (system plusPeriod quota).init s → (system plusPeriod quota).Run s es t →
      ((system plusPeriod quota).Throughout FlowCtrl.Accounted s es ↔
        ((system plusPeriod quota).restrict FlowCtrl.CountsDrop).Run s es t)) ∧
    ∀ s lines t, (sequential plusPeriod quota).init s →
      (sequential plusPeriod quota).Run s lines t →
        ((sequential plusPeriod quota).Throughout (Sequential.Lawful quota) s lines ↔
          ((sequential plusPeriod quota).restrict
            (Sequential.Counts plusPeriod quota)).Run s lines t) :=
  ⟨fun _ _ _ hi hr => FlowCtrl.throughout_accounted_iff hi hr,
    fun _ _ _ hi hr => Sequential.throughout_lawful_iff hi hr⟩

namespace Sequential

/-- Nanoseconds, and a period of one second. -/
def plusSecond (ns : Nat) : Nat := ns + 1000000000

def start : Sequential Nat := { statics := { gStartTime := 0 } }

/-- Three lines, of which the last one is over a quota of 1000, and one of the next period. -/
def fourLines : List (Int32 × Nat) := [(600, 5), (600, 6), (600, 7), (600, 1000000001)]

theorem flowCtrl_iff_run :
    (fourLines.foldl (call plusSecond 1000) start).returns = [0, 0, -1, 1] ∧
      (sequential plusSecond 1000).Throughout (Lawful 1000) start fourLines := by
  have hr : (sequential plusSecond 1000).Run start fourLines _ :=
    System.Run.of_enabledAll (by decide)
  refine ⟨by decide +kernel, ((flowCtrl_iff plusSecond 1000).2 _ _ _ ⟨0, rfl⟩ hr).mpr ?_⟩
  exact System.Run.of_enabledAll (by decide +kernel)

/-- A line of 1024 bytes, at a time in the first period. -/
def longLine : Int32 × Nat := (1024, 0)

/-- With the largest quota, a line is counted in the middle of a period. -/
theorem call_longLine {s : Sequential Nat} (h : Kept 0xffffffff s) :
    ¬ 0xffffffff < s.statics.gSumLen.toUInt32 ∧
      s.call plusSecond 0xffffffff longLine =
        { statics := { s.statics.first 0xffffffff with gSumLen := s.statics.gSumLen + 1024 }
          returns := s.returns ++ [0]
          period := s.period ++ [1024] } := by
  have hmid : ¬ s.NewPeriod plusSecond longLine.2 := Nat.not_lt_zero _
  have hunder : ¬ 0xffffffff < s.statics.gSumLen.toUInt32 := by
    have := s.statics.gSumLen.toUInt32.toNat_lt
    rw [UInt32.lt_iff_toNat_lt]
    show ¬ 4294967295 < _
    omega
  exact ⟨hunder, call_of_under hmid h hunder⟩

/-- Such lines are counted until their lengths wrap. -/
theorem run_longLine {k : Nat} (hk : k ≤ 2 ^ 22) :
    ∃ s, (sequential plusSecond 0xffffffff).Run start (List.replicate k longLine) s ∧
      Kept 0xffffffff s ∧ s.period.sum = 1024 * k := by
  induction k with
  | zero => exact ⟨start, .nil _, ⟨Int.le_refl 0, nofun, rfl, by simp [start]⟩, rfl⟩
  | succ k ih =>
    obtain ⟨s, hr, hkept, hsum⟩ := ih (by omega)
    obtain ⟨hunder, hcall⟩ := call_longLine hkept
    have hpos : (0 : Int32) ≤ longLine.1 := by decide
    have hcounts : s.Counts plusSecond 0xffffffff longLine :=
      fun _ => ⟨fun hover => absurd hover hunder, by omega⟩
    refine ⟨_, List.replicate_succ' ▸ hr.snoc hpos, kept_step hkept hpos hcounts, ?_⟩
    show (s.call plusSecond 0xffffffff longLine).period.sum = _
    rw [hcall, List.sum_append, hsum, List.sum_singleton]
    omega

/-- Lines whose lengths add up to 2^32 are followed by another one in their period. -/
theorem total_wraps : ∃ lines t, (sequential plusSecond 0xffffffff).init start ∧
    (sequential plusSecond 0xffffffff).Run start lines t ∧
    lines = List.replicate (2 ^ 22 + 1) longLine ∧ t.period.sum = 2 ^ 32 + 1024 ∧
    ¬ (sequential plusSecond 0xffffffff).Throughout (Lawful 0xffffffff) start lines := by
  obtain ⟨s, hr, hkept, hsum⟩ := run_longLine (Nat.le_refl (2 ^ 22))
  have hpos : (0 : Int32) ≤ longLine.1 := by decide
  obtain ⟨-, hcall⟩ := call_longLine hkept
  have hrun : (sequential plusSecond 0xffffffff).Run start (List.replicate (2 ^ 22 + 1) longLine)
      (s.call plusSecond 0xffffffff longLine) := List.replicate_succ' ▸ hr.snoc hpos
  have htotal : (s.call plusSecond 0xffffffff longLine).period.sum = 2 ^ 32 + 1024 := by
    rw [hcall, List.sum_append, hsum, List.sum_singleton]
    rfl
  refine ⟨_, _, ⟨0, rfl⟩, hrun, rfl, htotal, fun hall => ?_⟩
  have hwithin := (hall.last hrun).2
  rw [htotal, hcall, List.getLast?_concat] at hwithin
  exact absurd hwithin (by decide)

end Sequential

end Hilog
