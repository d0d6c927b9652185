import Mathlib.Algebra.BigOperators.Group.List.Basic
import Mathlib.Data.List.Perm.Basic
import OpenHarmonyMac.Infra.CString

/-!
# The preloaded helper

Appspawn puts its helper library into `LD_PRELOAD` and executes itself again, so that the loader
takes the helper in. The new process takes the helper out of the variable.

* `checkPreload` — `CheckPreload`
* `preload_iff` — where the two processes together leave the variable as it was, and
  where the helper is taken out of a list as an entry
-/

namespace Appspawn

open Infra

/-! ## The code -/

/-- `APPSPAWN_PRELOAD` -/
def APPSPAWN_PRELOAD : List Char := "libappspawn_helper.z.so".toList

/-- What the system answers to one call of `CheckPreload`. -/
structure PreloadEnv where
  setenv : Bool := true
  unsetenv : Bool := true
  /-- `readlink` of `/proc/self/exe` -/
  readlink : Bool := true
  execv : Bool := true

/-- `LD_PRELOAD` after the call, `none` when it is not set, and whether the process executed itself
with it. -/
structure Preloaded where
  ldPreload : Option (List Char)
  executed : Bool
deriving DecidableEq, Repr

/-- The branch of `CheckPreload` for a variable in which the helper was found. -/
def removePreload (env : PreloadEnv) (preload before behind : List Char) : Preloaded :=
  match sprintfS 256 (before ++ behind) with
  | none => { ldPreload := some preload, executed := false }
  | some [] => { ldPreload := if env.unsetenv then none else some preload, executed := false }
  | some buf => { ldPreload := if env.setenv then some buf else some preload, executed := false }

/-- The text with the helper behind it, in a buffer of 256 bytes. -/
def withPreload : Option (List Char) → Option (List Char)
  | none | some [] => some APPSPAWN_PRELOAD
  | some preload => sprintfS 256 (preload ++ ':' :: APPSPAWN_PRELOAD)

/-- The other branch: the helper is added, and the process executes itself. -/
def addPreload (env : PreloadEnv) (preload : Option (List Char)) : Preloaded :=
  match withPreload preload with
  | none => { ldPreload := preload, executed := false }
  | some buf =>
    if env.setenv then { ldPreload := some buf, executed := env.readlink && env.execv }
    else { ldPreload := preload, executed := false }

/-- `CheckPreload` -/
def checkPreload (env : PreloadEnv) (preload : Option (List Char)) : Preloaded :=
  match preload with
  | none => addPreload env none
  | some text =>
    match strstr APPSPAWN_PRELOAD text with
    | some (before, behind) => removePreload env text before behind
    | none => addPreload env (some text)

/-- `LD_PRELOAD` when the process and the one that it executed have called `CheckPreload`. -/
def afterRestart (preload : Option (List Char)) : Option (List Char) :=
  let r := checkPreload {} preload
  if r.executed then (checkPreload {} r.ldPreload).ldPreload else r.ldPreload

/-! ## Lists of libraries -/

/-- The value of the variable for these entries. -/
def preloadList (entries : List (List Char)) : Option (List Char) :=
  if entries = [] then none else some ([':'].intercalate entries)

/-- There is room for the helper behind the text. -/
def Fits (preload : Option (List Char)) : Prop :=
  ∀ text ∈ preload, text.length + 1 + APPSPAWN_PRELOAD.length < 256

/-- The text of a list is as long as its entries and the colons between them. -/
theorem length_intercalate {entries : List (List Char)} (hne : entries ≠ []) :
    ([':'].intercalate entries).length + 1 = (entries.map fun e => e.length + 1).sum := by
  induction entries with
  | nil => exact absurd rfl hne
  | cons e es ih =>
    by_cases hes : es = []
    · subst hes
      simp
    · have hlen := ih hes
      rw [List.intercalate_cons_of_ne_nil hes]
      simp only [List.length_append, List.length_singleton, List.map_cons, List.sum_cons]
      omega

theorem infix_intercalate {entries : List (List Char)} {e : List Char} (h : e ∈ entries) :
    e <:+: [':'].intercalate entries := by
  induction entries with
  | nil => cases h
  | cons a es ih =>
    by_cases hes : es = []
    · subst hes
      have hone : [':'].intercalate [a] = e := by
        rw [List.intercalate_singleton, List.mem_singleton.mp h]
      exact hone ▸ List.infix_refl e
    · rw [List.intercalate_cons_of_ne_nil hes]
      rcases List.mem_cons.mp h with rfl | h
      · rw [List.append_assoc]
        exact (List.prefix_append _ _).isInfix
      · exact (ih h).trans (List.suffix_append _ _).isInfix

/-! ## Taking the helper out -/

variable {preload : Option (List Char)} {text before behind : List Char}

/-- What is found is cut out, and nothing else. -/
theorem length_of_strstr (h : strstr APPSPAWN_PRELOAD text = some (before, behind)) :
    (before ++ behind).length + APPSPAWN_PRELOAD.length = text.length := by
  rw [eq_append_of_strstr h]
  simp only [List.length_append]
  omega

/-- The text that is left: the same one when it is too long for the buffer, none when nothing is
left, and else a text that is shorter by the helper. -/
theorem checkPreload_of_contained (h : APPSPAWN_PRELOAD <:+: text) :
    (checkPreload {} (some text)).executed = false ∧
      ((checkPreload {} (some text)).ldPreload = some text ∧ 256 ≤ text.length ∨
        (checkPreload {} (some text)).ldPreload = none ∧ text.length = APPSPAWN_PRELOAD.length ∨
        ∃ left, (checkPreload {} (some text)).ldPreload = some left ∧
          left.length + APPSPAWN_PRELOAD.length = text.length) := by
  obtain ⟨⟨before, behind⟩, hfound⟩ := Option.isSome_iff_exists.mp (strstr_isSome h)
  have hlen := length_of_strstr hfound
  simp only [checkPreload, hfound, removePreload]
  split
  · next hfit =>
    have hlong : 256 ≤ (before ++ behind).length := by
      unfold sprintfS at hfit
      split at hfit
      · cases hfit
      · omega
    exact ⟨rfl, .inl ⟨rfl, by omega⟩⟩
  · next hfit =>
    have hnil := eq_of_sprintfS hfit
    rw [← hnil, List.length_nil] at hlen
    exact ⟨rfl, .inr (.inl ⟨rfl, by omega⟩)⟩
  · next buf _ hfit =>
    rw [← eq_of_sprintfS hfit] at hlen
    exact ⟨rfl, .inr (.inr ⟨buf, rfl, hlen⟩)⟩

/-- **The helper comes out of a list as an entry just in case it is alone.** A colon stays behind
everywhere else. -/
theorem checkPreload_erase_iff {entries : List (List Char)} (hmem : APPSPAWN_PRELOAD ∈ entries) :
    (checkPreload {} (preloadList entries)).ldPreload
        = preloadList (entries.erase APPSPAWN_PRELOAD) ↔
      entries = [APPSPAWN_PRELOAD] := by
  have hne : entries ≠ [] := List.ne_nil_of_mem hmem
  constructor
  · intro h
    by_contra halone
    -- The list without the helper is shorter by the helper and a colon.
    have hperm := List.perm_cons_erase hmem
    have hrest : entries.erase APPSPAWN_PRELOAD ≠ [] := by
      intro hnil
      rw [hnil] at hperm
      exact halone (List.perm_singleton.mp hperm)
    have hsum := (hperm.map fun e => e.length + 1).sum_eq
    rw [List.map_cons, List.sum_cons, ← length_intercalate hne, ← length_intercalate hrest] at hsum
    have hcases := (checkPreload_of_contained (infix_intercalate hmem)).2
    rw [preloadList, if_neg hne, preloadList, if_neg hrest] at h
    rw [h] at hcases
    rcases hcases with ⟨heq, -⟩ | ⟨heq, -⟩ | ⟨left, heq, hlen⟩
    · rw [Option.some.injEq] at heq
      rw [heq] at hsum
      omega
    · cases heq
    · rw [Option.some.injEq] at heq
      rw [heq] at hsum
      omega
  · rintro rfl
    decide

/-! ## Adding it and taking it out again -/

/-- The variable that the new process finds. -/
theorem checkPreload_of_not_contained (hfit : text.length + 1 + APPSPAWN_PRELOAD.length < 256)
    (hne : text ≠ []) (h : strstr APPSPAWN_PRELOAD text = none) :
    checkPreload {} (some text) =
      { ldPreload := some (text ++ ':' :: APPSPAWN_PRELOAD), executed := true } := by
  have hbuf : withPreload (some text) = some (text ++ ':' :: APPSPAWN_PRELOAD) := by
    cases text with
    | nil => exact absurd rfl hne
    | cons c cs =>
      refine sprintfS_eq_some ?_
      rw [List.length_append, List.length_cons (a := ':')]
      omega
  simp [checkPreload, h, addPreload, hbuf]

/-- **The variable is as it was just in case it was not set.** -/
theorem afterRestart_eq_iff (hfit : Fits preload) : afterRestart preload = preload ↔ preload = none := by
  constructor
  · intro h
    cases preload with
    | none => rfl
    | some text =>
      have hfit := hfit text rfl
      by_cases hne : text = []
      · subst hne
        exact absurd h (by decide)
      cases hfound : strstr APPSPAWN_PRELOAD text with
      | some p =>
        -- The helper is part of the text, so it is cut out at once.
        have hinfix : APPSPAWN_PRELOAD <:+: text :=
          ⟨p.1, p.2, by rw [eq_append_of_strstr hfound, List.append_assoc]⟩
        obtain ⟨hexec, hcases⟩ := checkPreload_of_contained hinfix
        rw [afterRestart, hexec, if_neg Bool.false_ne_true] at h
        rw [h] at hcases
        rcases hcases with ⟨-, hlong⟩ | ⟨heq, -⟩ | ⟨left, heq, hlen⟩
        · omega
        · cases heq
        · rw [Option.some.injEq] at heq
          have hpos : 0 < APPSPAWN_PRELOAD.length := by decide
          rw [heq] at hlen
          omega
      | none =>
        -- A colon stays behind the text.
        rw [afterRestart, checkPreload_of_not_contained hfit hne hfound, if_pos rfl] at h
        have hinfix : APPSPAWN_PRELOAD <:+: text ++ ':' :: APPSPAWN_PRELOAD :=
          ⟨text ++ [':'], [], by simp⟩
        have hcases := (checkPreload_of_contained hinfix).2
        rw [h] at hcases
        simp only [List.length_append, List.length_cons, Option.some.injEq] at hcases
        rcases hcases with ⟨heq, -⟩ | ⟨heq, -⟩ | ⟨left, rfl, hlen⟩
        · exact absurd (congrArg List.length heq) (by simp)
        · cases heq
        · omega
  · rintro rfl
    decide

/-- **Where `CheckPreload` leaves `LD_PRELOAD` as it should be**: added and taken out again, the
helper leaves only a variable that was not set as it was, and it comes out of a list without a trace
only when it is alone there. -/
theorem preload_iff {entries : List (List Char)} (hfit : Fits preload)
    (hmem : APPSPAWN_PRELOAD ∈ entries) :
    (afterRestart preload = preload ↔ preload = none) ∧
      ((checkPreload {} (preloadList entries)).ldPreload
          = preloadList (entries.erase APPSPAWN_PRELOAD) ↔ entries = [APPSPAWN_PRELOAD]) :=
  ⟨afterRestart_eq_iff hfit, checkPreload_erase_iff hmem⟩

/-- A variable that is not set, and one with the helper alone. -/
theorem preload_iff_run : afterRestart none = none ∧
    (checkPreload {} (preloadList [APPSPAWN_PRELOAD])).ldPreload = none := by
  have hfit : Fits none := fun _ h => by cases h
  have h := preload_iff hfit (List.mem_singleton_self APPSPAWN_PRELOAD)
  exact ⟨h.1.mpr rfl, h.2.mpr rfl⟩

/-- **A colon stays behind the library** that was there before. -/
theorem colon_left_behind : afterRestart (some "libtrace.so".toList) = some "libtrace.so:".toList ∧
    ¬ afterRestart (some "libtrace.so".toList) = some "libtrace.so".toList := by
  decide

end Appspawn
