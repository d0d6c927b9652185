import OpenHarmonyMac.Infra.CString

/-!
# `std::string`

The searches and the parts of a `std::string`, with positions as they are, and the number that a
string of digits spells.

* `find_eq_some` — the first occurrence of a text
* `findFirstOf_zero` — the first character of a set
-/

namespace Infra

/-- What the standard library throws. -/
inductive StdException
  | outOfRange
  deriving DecidableEq, Repr

/-- `str.substr(pos, count)` -/
def substr (str : List Char) (pos count : Nat) : Except StdException (List Char) :=
  if str.length < pos then .error .outOfRange else .ok ((str.drop pos).take count)

/-- `str.find(text, pos)`. A position behind the end finds nothing. -/
def find (str text : List Char) (pos : Nat) : Option Nat :=
  if str.length < pos then none else (strstr text (str.drop pos)).map fun p => pos + p.1.length

/-- `str.find_first_of(chars, pos)` -/
def findFirstOf (str chars : List Char) (pos : Nat) : Option Nat :=
  let index := pos + ((str.drop pos).takeWhile (· ∉ chars)).length
  if index < str.length then some index else none

/-- `stoull` of a string that starts with a digit. -/
def stoull (str : List Char) : Except StdException UInt64 :=
  if readNat str < 2 ^ 64 then .ok (UInt64.ofNat (readNat str)) else .error .outOfRange

variable {str text chars before behind : List Char} {pos index count : Nat}

theorem substr_of_le (h : pos ≤ str.length) :
    substr str pos count = .ok ((str.drop pos).take count) :=
  if_neg (Nat.not_lt.mpr h)

/-! ## The first occurrence -/

theorem strstr_eq_none_iff : strstr text str = none ↔ ¬ text <:+: str := by
  constructor
  · intro h hinfix
    have hsome := strstr_isSome hinfix
    rw [h] at hsome
    cases hsome
  · intro h
    cases hs : strstr text str with
    | none => rfl
    | some p => exact absurd ⟨p.1, p.2, by rw [List.append_assoc, ← eq_append_of_strstr hs]⟩ h

/-- No occurrence stands in front of the one that is found. -/
theorem length_le_of_strstr {x y : List Char} (h : strstr text str = some (before, behind))
    (hstr : str = x ++ (text ++ y)) : before.length ≤ x.length := by
  induction str generalizing before x with
  | nil =>
    rw [strstr] at h
    split at h
    · cases h
      exact Nat.zero_le _
    · cases h
  | cons c cs ih =>
    rw [strstr] at h
    split at h
    · cases h
      exact Nat.zero_le _
    · next hpre =>
      obtain ⟨p, hp, heq⟩ := Option.map_eq_some_iff.mp h
      cases heq
      cases x with
      | nil =>
        rw [List.nil_append] at hstr
        exact absurd (List.isPrefixOf_iff_prefix.mpr ⟨y, hstr.symm⟩) hpre
      | cons a x =>
        rw [List.cons_append, List.cons.injEq] at hstr
        exact Nat.succ_le_succ (ih hp hstr.2)

/-- What stands in front of the first occurrence contains none. -/
theorem not_infix_of_strstr (htext : text ≠ []) (h : strstr text str = some (before, behind)) :
    ¬ text <:+: before := by
  rintro ⟨x, y, rfl⟩
  have hstr := eq_append_of_strstr h
  rw [List.append_assoc, List.append_assoc] at hstr
  have hle := length_le_of_strstr h hstr
  have hpos := List.length_pos_iff.mpr htext
  simp only [List.length_append] at hle
  omega

/-- The position of the first occurrence, and the text around it. -/
theorem find_eq_some (h : find str text pos = some index) :
    ∃ before behind, strstr text (str.drop pos) = some (before, behind) ∧
      pos ≤ str.length ∧ index = pos + before.length := by
  unfold find at h
  split at h
  · cases h
  · next hpos =>
    obtain ⟨⟨before, behind⟩, hs, rfl⟩ := Option.map_eq_some_iff.mp h
    exact ⟨before, behind, hs, Nat.not_lt.mp hpos, rfl⟩

/-- What stands before the occurrence, and behind it. -/
theorem find_around (htext : text ≠ []) (h : find str text pos = some index) :
    ∃ before, str.drop pos = before ++ (text ++ str.drop (index + text.length)) ∧
      (str.drop pos).take (index - pos) = before ∧ ¬ text <:+: before ∧
      pos ≤ index ∧ index + text.length ≤ str.length := by
  obtain ⟨before, behind, hs, hpos, rfl⟩ := find_eq_some h
  have hdrop := eq_append_of_strstr hs
  have hbehind : str.drop (pos + before.length + text.length) = behind := by
    rw [Nat.add_assoc, ← List.drop_drop, hdrop, ← List.append_assoc, ← List.length_append,
      List.drop_left]
  have hlength := congrArg List.length hdrop
  simp only [List.length_drop, List.length_append] at hlength
  refine ⟨before, by rw [hbehind, hdrop], ?_, not_infix_of_strstr htext hs,
    Nat.le_add_right _ _, by omega⟩
  rw [Nat.add_sub_cancel_left, hdrop, List.take_left]

theorem find_of_strstr (hpos : pos ≤ str.length)
    (h : strstr text (str.drop pos) = some (before, behind)) :
    find str text pos = some (pos + before.length) := by
  rw [find, if_neg (Nat.not_lt.mpr hpos), h]
  rfl

theorem find_eq_none_iff (hpos : pos ≤ str.length) :
    find str text pos = none ↔ ¬ text <:+: str.drop pos := by
  rw [find, if_neg (Nat.not_lt.mpr hpos), Option.map_eq_none_iff, strstr_eq_none_iff]

/-! ## The first character of a set -/

theorem findFirstOf_zero :
    findFirstOf str chars 0 =
      if str.dropWhile (· ∉ chars) = [] then none
      else some (str.takeWhile (· ∉ chars)).length := by
  have hlength := congrArg List.length (@List.takeWhile_append_dropWhile _ (· ∉ chars) str)
  rw [List.length_append] at hlength
  unfold findFirstOf
  rw [List.drop_zero, Nat.zero_add]
  dsimp only
  by_cases h : str.dropWhile (· ∉ chars) = []
  · rw [h, List.length_nil, Nat.add_zero] at hlength
    rw [if_pos h, if_neg (by omega)]
  · have := List.length_pos_iff.mpr h
    rw [if_neg h, if_pos (by omega)]

end Infra
