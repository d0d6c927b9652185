import Mathlib.Data.List.Perm.Subperm
import OpenHarmonyMac.Infra.Script
import OpenHarmonyMac.InitService.HeldFds

/-!
# The capabilities of a service

What the child process of a service calls on the system before it becomes the service, and the
first part of it: the bounding set of a service that keeps the user of init (`DropCapability`).

* `dropsUngranted_iff` — when the bounding set ends up without the capabilities not listed
-/

namespace InitService

open Infra

/-! ## Data -/

/-- What the headers say of capabilities. -/
structure CapHeader where
  capLastCap : Nat
  /-- `CAP_NUM`, the number of words in each set of `capset`. -/
  capNum : Nat
  fullCap : Nat
  capLastCap_lt : capLastCap + 1 < 2 ^ 31
  capNum_large : capLastCap < 32 * capNum
  fullCap_eq : fullCap = 2 ^ 32 - 1

/-- `service->servPerm` -/
structure ServPerm (k : CapHeader) where
  uID : Nat
  gIDArray : List Nat := []
  caps : List Nat := []
  caps_le : ∀ c ∈ caps, c ≤ k.capLastCap ∨ c = k.fullCap
  capsCnt_lt : caps.length < 2 ^ 32

/-- `__user_cap_data_struct` -/
structure CapData where
  effective : BitVec 32 := 0
  permitted : BitVec 32 := 0
  inheritable : BitVec 32 := 0
deriving DecidableEq, Repr

inductive PermsHook
  | setPermsBefore
  | setPerms
deriving DecidableEq, Repr

/-- What a child returns or exits with, when it is not the value of the system. -/
inductive ChildRet
  | success
  | failure
  | esocket
  | efile
  | econsole
  | eholder
  | ekeepcap
  | egidset
  | eseccomp
  | euidset
  | ecap
  | epriority
  | eexec
deriving DecidableEq, Repr

/-- What the child process calls. -/
inductive ChildCall
  | setSubInitContext
  | close (fd : Int)
  | enterSandbox (name : String)
  | setAccessToken (tokenId : Nat)
  | setenv (name value : List Char)
  | doJobNow (jobName : String)
  | unblockSignals
  | createSocketForService
  | setSocketEnvForService
  | createServiceFile
  | openConsole
  | openKmsg
  | publishHoldFds (published : Published)
  | schedSetaffinity
  | fopen (path : List Char)
  | fprintf (path : List Char) (pid : Int)
  | serviceHook (hook : PermsHook) (info : Option (List Char))
  | keepCapability
  | setgid (gid : Nat)
  | setgroups (gids : List Nat)
  | pluginExecCmdByName (name : String) (cmdContent : List Char)
  | setuid (uid : Nat)
  | callocCaps (count : Int)
  | capbsetDrop (cap : Nat)
  | capset (data : List CapData)
  | setAmbientCapability (cap : Nat)
  | serviceExec
  | setpriority (importance : Int)
  | openHidebug
  | execv (path : List Char)
  | exit (ret : ChildRet)
deriving DecidableEq, Repr

/-- A part of the child process. -/
abbrev ChildScript := Script ChildCall ChildRet

/-- What the calls answer, 0 when they succeed. -/
abbrev Answers := List ChildCall → ChildCall → Int

/-! ## The bounding set -/

namespace ServPerm

variable {k : CapHeader} (p : ServPerm k)

/-- The capabilities that `GetInvalidCaps` looks for. -/
def invalidCaps : List Nat :=
  (List.range (k.capLastCap + 1)).filter fun cap => !p.caps.contains cap

/-- `GetInvalidCaps`: the array of `count` zeros when it has been filled, and whether something was
written behind it. -/
def getInvalidCaps (count : Nat) : List Nat × Bool :=
  (p.invalidCaps.take count ++ List.replicate (count - p.invalidCaps.length) 0,
    decide (count < p.invalidCaps.length))

/-- `CAP_LAST_CAP - capsCnt + 1` in unsigned arithmetic, as an `int`. -/
def invalidCnt : Int := Int.bmod ((k.capLastCap : Int) - p.caps.length + 1) (2 ^ 32)

end ServPerm

/-- The loop of `DropCapability`, which ends at the first failure. -/
def dropCaps (sys : Answers) : List Nat → ChildScript Unit
  | [] => pure ()
  | cap :: caps => do
    let ret ← Script.ask sys (.capbsetDrop cap)
    if ret = 0 then dropCaps sys caps else pure ()

/-- `DropCapability`; the result says that it has written behind its array. -/
def dropCapability {k : CapHeader} (sys : Answers) (p : ServPerm k) : ChildScript Bool := do
  let ret ← Script.ask sys (.callocCaps p.invalidCnt)
  -- A negative number is a huge size, which `calloc` refuses.
  if ret = 0 ∧ 0 ≤ p.invalidCnt then
    let (caps, outside) := p.getInvalidCaps p.invalidCnt.toNat
    dropCaps sys caps
    pure outside
  else pure false

/-! ## What is dropped -/

/-- The capability was dropped by one of the new calls. -/
def Dropped (sys : Answers) (past calls : List ChildCall) (cap : Nat) : Prop :=
  ∃ before after, calls = past ++ (before ++ .capbsetDrop cap :: after) ∧
    sys (past ++ before) (.capbsetDrop cap) = 0

/-- `DropCapability` does what it is for: it stays inside its array, and drops the capabilities
that the service is not granted. -/
def DropsUngranted {k : CapHeader} (sys : Answers) (p : ServPerm k) (past : List ChildCall) :
    Prop :=
  (dropCapability sys p past).1 = .ok false ∧
    ∀ cap, Dropped sys past (dropCapability sys p past).2 cap ↔
      cap ≤ k.capLastCap ∧ k.fullCap ∉ p.caps ∧ cap ∉ p.caps

/-- Every capability is granted. -/
def GrantsAll {k : CapHeader} (p : ServPerm k) : Prop :=
  k.fullCap ∈ p.caps ∨ ∀ cap ≤ k.capLastCap, cap ∈ p.caps

namespace ServPerm

variable {k : CapHeader} (p : ServPerm k)

theorem capLastCap_lt_fullCap : k.capLastCap < k.fullCap := by
  have h := k.capLastCap_lt
  rw [k.fullCap_eq]
  omega

theorem mem_invalidCaps {cap : Nat} :
    cap ∈ p.invalidCaps ↔ cap ≤ k.capLastCap ∧ cap ∉ p.caps := by
  rw [invalidCaps, List.mem_filter, List.mem_range, Nat.lt_succ_iff]
  simp

/-- The listed capabilities, each once. -/
def validCaps : List Nat :=
  (List.range (k.capLastCap + 1)).filter fun cap => p.caps.contains cap

theorem mem_validCaps {cap : Nat} :
    cap ∈ p.validCaps ↔ cap ≤ k.capLastCap ∧ cap ∈ p.caps := by
  rw [validCaps, List.mem_filter, List.mem_range, Nat.lt_succ_iff]
  simp

theorem length_validCaps_add : p.validCaps.length + p.invalidCaps.length = k.capLastCap + 1 := by
  have h := List.length_eq_length_filter_add (l := List.range (k.capLastCap + 1))
    (fun cap => p.caps.contains cap)
  rw [List.length_range] at h
  exact h.symm

theorem nodup_validCaps : p.validCaps.Nodup := List.nodup_range.filter _

theorem validCaps_subset : p.validCaps ⊆ p.caps := fun _ h => (p.mem_validCaps.mp h).2

theorem length_validCaps_le : p.validCaps.length ≤ p.caps.length :=
  (p.nodup_validCaps.subperm p.validCaps_subset).length_le

/-- The list is as long as it has different capabilities in it, just in case none comes twice and
none stands for all. -/
theorem length_validCaps_eq_iff :
    p.validCaps.length = p.caps.length ↔ k.fullCap ∉ p.caps ∧ p.caps.Nodup := by
  constructor
  · intro hlen
    have hperm : p.validCaps.Perm p.caps :=
      (p.nodup_validCaps.subperm p.validCaps_subset).perm_of_length_le hlen.ge
    refine ⟨fun hfull => ?_, hperm.nodup_iff.mp p.nodup_validCaps⟩
    have hle := (p.mem_validCaps.mp (hperm.mem_iff.mpr hfull)).1
    exact absurd (capLastCap_lt_fullCap (k := k)) (by omega)
  · rintro ⟨hfull, hnodup⟩
    have hsub : p.caps ⊆ p.validCaps := by
      intro cap hcap
      rcases p.caps_le cap hcap with hle | rfl
      · exact p.mem_validCaps.mpr ⟨hle, hcap⟩
      · exact absurd hcap hfull
    exact p.length_validCaps_le.antisymm (hnodup.subperm hsub).length_le

/-- What is written behind an array of the size that `DropCapability` computes. -/
theorem getInvalidCaps_outside {count : Nat} :
    (p.getInvalidCaps count).2 = true ↔ count < p.invalidCaps.length := by
  simp [getInvalidCaps]

theorem le_of_mem_getInvalidCaps {count cap : Nat} (h : cap ∈ (p.getInvalidCaps count).1) :
    cap ≤ k.capLastCap := by
  rcases List.mem_append.mp h with h | h
  · exact (p.mem_invalidCaps.mp (List.mem_of_mem_take h)).1
  · rw [List.eq_of_mem_replicate h]
    exact Nat.zero_le _

theorem invalidCnt_of_le (h : p.caps.length ≤ k.capLastCap + 1) :
    p.invalidCnt = ((k.capLastCap + 1 - p.caps.length : Nat) : Int) := by
  have hlt := k.capLastCap_lt
  rw [invalidCnt, Int.bmod_eq_of_le (by omega) (by omega)]
  omega

/-- The number of entries is more than the capabilities, and less than the sign bit away. -/
theorem invalidCnt_neg (hlo : k.capLastCap + 1 < p.caps.length)
    (hhi : p.caps.length ≤ 2 ^ 31 + (k.capLastCap + 1)) : p.invalidCnt < 0 := by
  have hlt := k.capLastCap_lt
  rw [invalidCnt, Int.bmod_eq_of_le (by omega) (by omega)]
  omega

theorem invalidCnt_of_gt (h : 2 ^ 31 + (k.capLastCap + 1) < p.caps.length) :
    p.invalidCnt = ((k.capLastCap + 1 + 2 ^ 32 - p.caps.length : Nat) : Int) := by
  have hlt := k.capLastCap_lt
  have hcnt := p.capsCnt_lt
  have hadd : (k.capLastCap : Int) - p.caps.length + 1 =
      ((k.capLastCap + 1 + 2 ^ 32 - p.caps.length : Nat) : Int) - ((2 ^ 32 : Nat) : Int) := by
    omega
  rw [invalidCnt, hadd, Int.sub_bmod_right, Int.bmod_eq_of_le (by omega) (by omega)]

theorem invalidCnt_nonneg_iff : 0 ≤ p.invalidCnt ↔
    p.caps.length ≤ k.capLastCap + 1 ∨ 2 ^ 31 + (k.capLastCap + 1) < p.caps.length := by
  by_cases hlo : p.caps.length ≤ k.capLastCap + 1
  · rw [p.invalidCnt_of_le hlo]
    exact iff_of_true (Int.natCast_nonneg _) (Or.inl hlo)
  by_cases hhi : 2 ^ 31 + (k.capLastCap + 1) < p.caps.length
  · rw [p.invalidCnt_of_gt hhi]
    exact iff_of_true (Int.natCast_nonneg _) (Or.inr hhi)
  · exact iff_of_false (p.invalidCnt_neg (by omega) (by omega)).not_ge (by omega)

/-- The array has room for the invalid capabilities just in case the list is one without
repetitions and without `FULL_CAP`. -/
theorem outside_eq_false_iff (h : p.caps.length ≤ k.capLastCap + 1) :
    (p.getInvalidCaps p.invalidCnt.toNat).2 = false ↔ k.fullCap ∉ p.caps ∧ p.caps.Nodup := by
  rw [← p.length_validCaps_eq_iff, p.invalidCnt_of_le h, Int.toNat_natCast,
    ← Bool.not_eq_true, p.getInvalidCaps_outside]
  have hadd := p.length_validCaps_add
  have hle := p.length_validCaps_le
  omega

end ServPerm

section Drop

variable {k : CapHeader} {sys : Answers} {p : ServPerm k} {past : List ChildCall}

/-- The system drops each capability that there is. -/
def DropsAll (k : CapHeader) (sys : Answers) : Prop :=
  ∀ past cap, cap ≤ k.capLastCap → sys past (.capbsetDrop cap) = 0

theorem dropCaps_eq (h : DropsAll k sys) {caps : List Nat} (hle : ∀ cap ∈ caps, cap ≤ k.capLastCap) :
    dropCaps sys caps past = (.ok (), past ++ caps.map .capbsetDrop) := by
  induction caps generalizing past with
  | nil => simp [dropCaps]
  | cons cap caps ih =>
    have hzero := h past cap (hle cap List.mem_cons_self)
    rw [dropCaps, Script.ask_bind, if_pos hzero,
      ih fun c hc => hle c (List.mem_cons_of_mem _ hc), List.map_cons, List.append_assoc]
    rfl

/-- What is dropped by a row of calls for it. -/
theorem dropped_iff (h : DropsAll k sys) {caps : List Nat} (hle : ∀ cap ∈ caps, cap ≤ k.capLastCap)
    (count : Int) (cap : Nat) :
    Dropped sys past (past ++ .callocCaps count :: caps.map .capbsetDrop) cap ↔ cap ∈ caps := by
  constructor
  · rintro ⟨before, after, heq, -⟩
    have hmem : ChildCall.capbsetDrop cap ∈ ChildCall.callocCaps count :: caps.map .capbsetDrop := by
      rw [List.append_cancel_left heq]
      simp
    simpa using hmem
  · intro hcap
    obtain ⟨before, after, hsplit⟩ := List.append_of_mem hcap
    refine ⟨.callocCaps count :: before.map .capbsetDrop, after.map .capbsetDrop, ?_,
      h _ cap (hle cap hcap)⟩
    rw [hsplit]
    simp

theorem dropCapability_of_refused
    (h : ¬ (sys past (.callocCaps p.invalidCnt) = 0 ∧ 0 ≤ p.invalidCnt)) :
    dropCapability sys p past = (.ok false, past ++ [.callocCaps p.invalidCnt]) := by
  rw [dropCapability, Script.ask_bind, if_neg h]
  rfl

theorem dropCapability_of_allocated (h : DropsAll k sys)
    (hs : sys past (.callocCaps p.invalidCnt) = 0 ∧ 0 ≤ p.invalidCnt) :
    dropCapability sys p past =
      (.ok (p.getInvalidCaps p.invalidCnt.toNat).2, past ++ .callocCaps p.invalidCnt ::
        (p.getInvalidCaps p.invalidCnt.toNat).1.map .capbsetDrop) := by
  rw [dropCapability, Script.ask_bind, if_pos hs]
  dsimp only
  rw [Script.bind_of_ok (dropCaps_eq h fun _ hc => p.le_of_mem_getInvalidCaps hc)]
  simp

theorem dropsUngranted_of_refused (h : DropsAll k sys)
    (hs : ¬ (sys past (.callocCaps p.invalidCnt) = 0 ∧ 0 ≤ p.invalidCnt)) :
    DropsUngranted sys p past ↔ GrantsAll p := by
  have hnone : ∀ cap, ¬ Dropped sys past (past ++ [.callocCaps p.invalidCnt]) cap := by
    intro cap hcap
    have hle : ∀ cap ∈ ([] : List Nat), cap ≤ k.capLastCap := by simp
    cases (dropped_iff h hle p.invalidCnt cap).mp hcap
  rw [DropsUngranted, dropCapability_of_refused hs]
  constructor
  · rintro ⟨-, hall⟩
    rw [GrantsAll]
    by_contra hnot
    rw [not_or] at hnot
    obtain ⟨hfull, hmissing⟩ := hnot
    refine hmissing fun cap hle => ?_
    by_contra hcap
    exact hnone cap ((hall cap).mpr ⟨hle, hfull, hcap⟩)
  · rintro hgrants
    refine ⟨rfl, fun cap => iff_of_false (hnone cap) ?_⟩
    rintro ⟨hle, hfull, hcap⟩
    rcases hgrants with hin | hall
    · exact hfull hin
    · exact hcap (hall cap hle)

theorem dropsUngranted_of_allocated (h : DropsAll k sys)
    (hs : sys past (.callocCaps p.invalidCnt) = 0 ∧ 0 ≤ p.invalidCnt) :
    DropsUngranted sys p past ↔ (p.getInvalidCaps p.invalidCnt.toNat).2 = false ∧
      ∀ cap, cap ∈ (p.getInvalidCaps p.invalidCnt.toNat).1 ↔
        cap ≤ k.capLastCap ∧ k.fullCap ∉ p.caps ∧ cap ∉ p.caps := by
  rw [DropsUngranted, dropCapability_of_allocated h hs]
  refine and_congr ⟨fun heq => ?_, fun heq => congrArg Except.ok heq⟩ ?_
  · injection heq
  · refine forall_congr' fun cap => ?_
    rw [dropped_iff h fun _ hc => p.le_of_mem_getInvalidCaps hc]

/-- The array of a list that is no longer than there are capabilities. -/
theorem getInvalidCaps_right_iff (hle : p.caps.length ≤ k.capLastCap + 1) :
    ((p.getInvalidCaps p.invalidCnt.toNat).2 = false ∧
      ∀ cap, cap ∈ (p.getInvalidCaps p.invalidCnt.toNat).1 ↔
        cap ≤ k.capLastCap ∧ k.fullCap ∉ p.caps ∧ cap ∉ p.caps) ↔
      k.fullCap ∉ p.caps ∧ p.caps.Nodup := by
  rw [p.outside_eq_false_iff hle, and_iff_left_iff_imp]
  intro hok cap
  -- There is room for exactly as many as are written.
  have hcount : p.invalidCnt.toNat = p.invalidCaps.length := by
    have hlen := p.length_validCaps_eq_iff.mpr hok
    have hadd := p.length_validCaps_add
    rw [p.invalidCnt_of_le hle, Int.toNat_natCast]
    omega
  rw [ServPerm.getInvalidCaps, hcount, Nat.sub_self, List.take_length]
  simp [p.mem_invalidCaps, hok.1]

/-- The array of a list so long that the computed number is positive again. -/
theorem getInvalidCaps_wrapped_iff (hgt : 2 ^ 31 + (k.capLastCap + 1) < p.caps.length) :
    ((p.getInvalidCaps p.invalidCnt.toNat).2 = false ∧
      ∀ cap, cap ∈ (p.getInvalidCaps p.invalidCnt.toNat).1 ↔
        cap ≤ k.capLastCap ∧ k.fullCap ∉ p.caps ∧ cap ∉ p.caps) ↔
      k.fullCap ∉ p.caps ∧ 0 ∉ p.caps := by
  have hroom : p.invalidCaps.length < p.invalidCnt.toNat := by
    have hadd := p.length_validCaps_add
    have hcnt := p.capsCnt_lt
    rw [p.invalidCnt_of_gt hgt, Int.toNat_natCast]
    omega
  have hmem : ∀ cap, cap ∈ (p.getInvalidCaps p.invalidCnt.toNat).1 ↔
      cap ∈ p.invalidCaps ∨ cap = 0 := by
    intro cap
    rw [ServPerm.getInvalidCaps, List.mem_append, List.take_of_length_le hroom.le,
      List.mem_replicate]
    exact or_congr_right (and_iff_right (by omega))
  have hin : (p.getInvalidCaps p.invalidCnt.toNat).2 = false := by
    rw [← Bool.not_eq_true, p.getInvalidCaps_outside]
    omega
  rw [and_iff_right hin]
  constructor
  · intro hall
    -- Behind the written entries the array has zeros, and capability 0 is dropped with them.
    exact ((hall 0).mp ((hmem 0).mpr (Or.inr rfl))).2
  · rintro ⟨hfull, hzero⟩ cap
    rw [hmem cap, p.mem_invalidCaps]
    constructor
    · rintro (⟨hle, hcap⟩ | rfl)
      · exact ⟨hle, hfull, hcap⟩
      · exact ⟨Nat.zero_le _, hfull, hzero⟩
    · rintro ⟨hle, -, hcap⟩
      exact Or.inl ⟨hle, hcap⟩

end Drop

/-- **When the bounding set is reduced to the listed capabilities.** If the array is allocated, the
list must be without `FULL_CAP` and without repetitions; a list so long that the computed size is
positive again must not grant capability 0. If the array is not allocated, nothing is dropped, and
the service has to be granted everything. -/
theorem dropsUngranted_iff {k : CapHeader} {sys : Answers} (h : DropsAll k sys) (p : ServPerm k)
    (past : List ChildCall) :
    DropsUngranted sys p past ↔
      if sys past (.callocCaps p.invalidCnt) = 0 ∧ (p.caps.length ≤ k.capLastCap + 1 ∨
          2 ^ 31 + (k.capLastCap + 1) < p.caps.length) then
        k.fullCap ∉ p.caps ∧ (p.caps.length ≤ k.capLastCap + 1 → p.caps.Nodup) ∧
          (k.capLastCap + 1 < p.caps.length → 0 ∉ p.caps)
      else GrantsAll p := by
  have hsize := p.invalidCnt_nonneg_iff
  by_cases hs : sys past (.callocCaps p.invalidCnt) = 0 ∧ 0 ≤ p.invalidCnt
  · rw [if_pos ⟨hs.1, hsize.mp hs.2⟩, dropsUngranted_of_allocated h hs]
    by_cases hle : p.caps.length ≤ k.capLastCap + 1
    · rw [getInvalidCaps_right_iff hle]
      refine and_congr_right fun _ => ?_
      exact ⟨fun hnodup => ⟨fun _ => hnodup, fun hgt => absurd hle (by omega)⟩, fun hc => hc.1 hle⟩
    · have hgt := (p.invalidCnt_nonneg_iff.mp hs.2).resolve_left hle
      rw [getInvalidCaps_wrapped_iff hgt]
      refine and_congr_right fun _ => ?_
      exact ⟨fun hzero => ⟨fun habs => absurd habs hle, fun _ => hzero⟩, fun hc => hc.2 (by omega)⟩
  · rw [if_neg fun hc => hs ⟨hc.1, hsize.mpr hc.2⟩, dropsUngranted_of_refused h hs]

/-- The headers of a Linux system. -/
def linuxCaps : CapHeader where
  capLastCap := 40
  capNum := 2
  fullCap := 0xFFFFFFFF
  capLastCap_lt := by decide
  capNum_large := by decide
  fullCap_eq := rfl

/-- A service of root with two capabilities. -/
theorem dropsUngranted_iff_run :
    DropsUngranted (fun _ _ => 0)
      (⟨0, [], [12, 10], by decide, by decide⟩ : ServPerm linuxCaps) [] :=
  (dropsUngranted_iff (fun _ _ _ => rfl) _ []).mpr (by simp [linuxCaps])

/-- A capability listed twice makes `GetInvalidCaps` write behind its array. -/
theorem repeated_cap_outside :
    ¬ DropsUngranted (fun _ _ => 0)
      (⟨0, [], [12, 12], by decide, by decide⟩ : ServPerm linuxCaps) [] := by
  rintro ⟨hret, -⟩
  cases hret

end InitService
