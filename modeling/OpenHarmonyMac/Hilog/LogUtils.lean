import OpenHarmonyMac.Infra.StdString

/-!
# Separated lists and sizes

`Split` looks for the first separator by any of its characters, and for the others by the whole
separator. `Str2Size` reads a number with a unit.

* `inverts_iff` — joining the pieces gives the text back, just in case the first character of the
  separator that the text has begins a separator
* `meetsSize_iff` — a size is read or rejected, just in case the product fits or wraps to zero
-/

namespace Hilog

open Infra

/-! ## `Split` -/

/-- The loop of `Split`, from the separator at `index` on. There is no result when the fuel has run
out. -/
def splitLoop (str separator : List Char) :
    Nat → Nat → Nat → List (List Char) → Option (Except StdException (List (List Char)))
  | 0, _, _, _ => none
  | fuel + 1, start, index, dest =>
    match substr str start (index - start) with
    | .error e => some (.error e)
    | .ok substring =>
      let dest := dest ++ [substring]
      let start := index + separator.length
      match find str separator start with
      | some index => splitLoop str separator fuel start index dest
      | none =>
        match substr str start str.length with
        | .error e => some (.error e)
        | .ok substring => some (.ok (if substring = [] then dest else dest ++ [substring]))

/-- `Split` -/
def split (src separator : List Char) : Option (Except StdException (List (List Char))) :=
  match findFirstOf src separator 0 with
  | none => some (.ok [src])
  | some index => splitLoop src separator (src.length + 1) 0 index []

/-- Joining the pieces gives the source back, up to one separator at its end. No piece contains the
separator, and a source without it is its only piece. -/
def Inverts (src separator : List Char) : Prop :=
  ∃ pieces, split src separator = some (.ok pieces) ∧
    (separator.intercalate pieces = src ∨ separator.intercalate pieces ++ separator = src) ∧
    (∀ piece ∈ pieces, ¬ separator <:+: piece) ∧ (¬ separator <:+: src → pieces = [src])

/-- The text has no character of the separator, or the first one begins a separator. -/
def WholeFirst (src separator : List Char) : Prop :=
  src.dropWhile (· ∉ separator) = [] ∨ separator <+: src.dropWhile (· ∉ separator)

instance (src separator : List Char) : Decidable (WholeFirst src separator) :=
  inferInstanceAs (Decidable (_ ∨ _))

variable {str src separator : List Char} {fuel start index : Nat} {dest pieces : List (List Char)}

/-! ### The loop -/

theorem intercalate_cons {piece : List Char} (h : pieces ≠ []) :
    separator.intercalate (piece :: pieces) =
      piece ++ (separator ++ separator.intercalate pieces) := by
  obtain ⟨next, rest, rfl⟩ := List.exists_cons_of_ne_nil h
  simp [List.intercalate]

/-- Each round moves the start by a separator at least, so the fuel does not run out. -/
theorem splitLoop_ne_none (hseparator : separator ≠ []) (hstart : start ≤ index)
    (hfuel : str.length + 1 ≤ fuel + start) (hpos : start ≤ str.length) :
    splitLoop str separator fuel start index dest ≠ none := by
  induction fuel generalizing start index dest with
  | zero => omega
  | succ fuel ih =>
    have hlength := List.length_pos_iff.mpr hseparator
    rw [splitLoop, substr_of_le hpos]
    dsimp only
    cases hfind : find str separator (index + separator.length) with
    | none =>
      dsimp only
      split
      · exact nofun
      · exact nofun
    | some next =>
      obtain ⟨before, behind, -, hle, rfl⟩ := find_eq_some hfind
      exact ih (Nat.le_add_right _ _) (by omega) hle

/-- **`Split` returns or throws.** -/
theorem split_ne_none (hseparator : separator ≠ []) : split src separator ≠ none := by
  unfold split
  split
  · exact nofun
  · exact splitLoop_ne_none hseparator (Nat.zero_le _) (by omega) (Nat.zero_le _)

/-- The first piece is the text up to the first index. -/
theorem eq_cons_of_splitLoop (hpos : start ≤ str.length)
    (h : splitLoop str separator fuel start index dest = some (.ok pieces)) :
    ∃ rest, pieces = dest ++ (str.drop start).take (index - start) :: rest := by
  induction fuel generalizing start index dest with
  | zero => cases h
  | succ fuel ih =>
    rw [splitLoop, substr_of_le hpos] at h
    dsimp only at h
    cases hfind : find str separator (index + separator.length) with
    | none =>
      rw [hfind] at h
      dsimp only at h
      split at h
      · cases h
      · next last _ =>
        cases h
        split
        · exact ⟨[], rfl⟩
        · exact ⟨[last], by simp⟩
    | some next =>
      rw [hfind] at h
      obtain ⟨-, -, -, hle, -⟩ := find_eq_some hfind
      obtain ⟨rest, hrest⟩ := ih hle h
      exact ⟨_, by rw [hrest, List.append_assoc]; rfl⟩

/-- Where no separator follows, the rest of the text is the last piece, unless it is empty. -/
theorem splitLoop_last (hseparator : separator ≠ [])
    (h : find str separator start = some index)
    (hlast : find str separator (index + separator.length) = none) :
    ∃ pieces, splitLoop str separator (fuel + 1) start index dest = some (.ok (dest ++ pieces)) ∧
      pieces ≠ [] ∧
      (separator.intercalate pieces = str.drop start ∨
        separator.intercalate pieces ++ separator = str.drop start) ∧
      ∀ piece ∈ pieces, ¬ separator <:+: piece := by
  obtain ⟨before, hdrop, htake, hbefore, hle, hpos⟩ := find_around hseparator h
  rw [splitLoop, substr_of_le (by omega), htake]
  dsimp only
  rw [hlast, substr_of_le hpos]
  rw [find_eq_none_iff hpos] at hlast
  generalize hbehind : str.drop (index + separator.length) = behind at hdrop hlast ⊢
  have hall : behind.take str.length = behind := by
    refine List.take_of_length_le ?_
    rw [← hbehind, List.length_drop]
    omega
  rw [hall]
  dsimp only
  by_cases hempty : behind = []
  · refine ⟨[before], by rw [if_pos hempty], List.cons_ne_nil _ _, .inr ?_, ?_⟩
    · rw [hdrop, hempty]
      simp [List.intercalate]
    · exact List.forall_mem_singleton.mpr hbefore
  · refine ⟨[before, behind], ?_, List.cons_ne_nil _ _, .inl ?_, ?_⟩
    · rw [if_neg hempty, List.append_assoc]
      rfl
    · rw [hdrop]
      simp [List.intercalate]
    · exact List.forall_mem_cons.mpr ⟨hbefore, List.forall_mem_singleton.mpr hlast⟩

/-- **From an occurrence that `find` has found, the pieces are those between the separators.** -/
theorem splitLoop_eq (hseparator : separator ≠ []) (hfuel : str.length + 1 ≤ fuel + start)
    (h : find str separator start = some index) :
    ∃ pieces, splitLoop str separator fuel start index dest = some (.ok (dest ++ pieces)) ∧
      pieces ≠ [] ∧
      (separator.intercalate pieces = str.drop start ∨
        separator.intercalate pieces ++ separator = str.drop start) ∧
      ∀ piece ∈ pieces, ¬ separator <:+: piece := by
  have hlength := List.length_pos_iff.mpr hseparator
  induction fuel generalizing start index dest with
  | zero =>
    obtain ⟨-, -, -, -, hle, hpos⟩ := find_around hseparator h
    omega
  | succ fuel ih =>
    cases hfind : find str separator (index + separator.length) with
    | none => exact splitLoop_last hseparator h hfind
    | some next =>
      obtain ⟨before, hdrop, htake, hbefore, hle, hpos⟩ := find_around hseparator h
      obtain ⟨rest, hrun, hne, hjoin, hrest⟩ := ih (by omega) hfind
      rw [splitLoop, substr_of_le (by omega), htake]
      dsimp only
      rw [hfind]
      refine ⟨before :: rest, ?_, List.cons_ne_nil _ _, ?_, ?_⟩
      · dsimp only
        rw [hrun, List.append_assoc]
        rfl
      · rw [intercalate_cons hne, hdrop]
        rcases hjoin with hjoin | hjoin
        · left
          rw [hjoin]
        · right
          rw [← hjoin]
          simp
      · exact List.forall_mem_cons.mpr ⟨hbefore, hrest⟩

/-! ### The whole text -/

/-- A text with none of the characters does not contain the separator. -/
theorem not_infix_of_dropWhile (hseparator : separator ≠ [])
    (h : str.dropWhile (· ∉ separator) = []) : ¬ separator <:+: str := by
  rintro ⟨x, y, hstr⟩
  obtain ⟨c, cs, rfl⟩ := List.exists_cons_of_ne_nil hseparator
  have hmem : c ∈ str := by
    rw [← hstr]
    simp
  have := List.dropWhile_eq_nil_iff.mp h c hmem
  simp at this

/-- A list of other characters ends where one of the set stands. -/
theorem length_takeWhile_le {before rest : List Char} {c : Char} (hc : c ∈ separator) :
    ((before ++ c :: rest).takeWhile (· ∉ separator)).length ≤ before.length := by
  rw [List.takeWhile_append]
  split
  · rw [List.takeWhile_cons_of_neg (by simpa using hc), List.append_nil]
  · exact (List.takeWhile_prefix _).length_le

theorem infix_of_prefix_dropWhile (h : separator <+: str.dropWhile (· ∉ separator)) :
    separator <:+: str :=
  h.isInfix.trans (List.dropWhile_suffix _).isInfix

/-- A separator at the first of its characters is the first separator. -/
theorem find_of_prefix_dropWhile (hseparator : separator ≠ [])
    (h : separator <+: str.dropWhile (· ∉ separator)) :
    find str separator 0 = some (str.takeWhile (· ∉ separator)).length := by
  have hinfix := infix_of_prefix_dropWhile h
  obtain ⟨⟨before, behind⟩, hs⟩ := Option.isSome_iff_exists.mp (strstr_isSome hinfix)
  obtain ⟨y, hy⟩ := h
  have hstr : str = str.takeWhile (· ∉ separator) ++ (separator ++ y) := by
    rw [hy, List.takeWhile_append_dropWhile]
  have hle := length_le_of_strstr hs hstr
  have hge : (str.takeWhile (· ∉ separator)).length ≤ before.length := by
    obtain ⟨c, cs, hcons⟩ := List.exists_cons_of_ne_nil hseparator
    have hc : c ∈ separator := hcons ▸ List.mem_cons_self
    have hbehind : separator ++ behind = c :: (cs ++ behind) := by
      rw [hcons, List.cons_append]
    rw [eq_append_of_strstr hs, hbehind]
    exact length_takeWhile_le hc
  rw [find_of_strstr (Nat.zero_le _) hs, Nat.zero_add, Nat.le_antisymm hle hge]

/-- Where joining gives the text back, a separator stands at the first index. -/
theorem Inverts.wholeFirst (h : Inverts src separator) : WholeFirst src separator := by
  obtain ⟨pieces, hrun, hjoin, -, -⟩ := h
  have hsrc := @List.takeWhile_append_dropWhile _ (· ∉ separator) src
  unfold split at hrun
  rw [findFirstOf_zero] at hrun
  by_cases hnone : src.dropWhile (· ∉ separator) = []
  · exact .inl hnone
  · rw [if_neg hnone] at hrun
    obtain ⟨rest, hpieces⟩ := eq_cons_of_splitLoop (Nat.zero_le _) hrun
    have hfirst : (src.drop 0).take ((src.takeWhile (· ∉ separator)).length - 0) =
        src.takeWhile (· ∉ separator) := by
      rw [List.drop_zero, Nat.sub_zero]
      exact (List.prefix_iff_eq_take.mp (List.takeWhile_prefix _)).symm
    rw [List.nil_append, hfirst] at hpieces
    right
    by_cases hrest : rest = []
    · have hone : separator.intercalate pieces = src.takeWhile (· ∉ separator) := by
        rw [hpieces, hrest]
        simp [List.intercalate]
      rw [hone] at hjoin
      rcases hjoin with hjoin | hjoin
      · exact absurd (List.append_right_eq_self.mp (hsrc.trans hjoin.symm)) hnone
      · exact ⟨[], by rw [List.append_nil]; exact List.append_cancel_left (hjoin.trans hsrc.symm)⟩
    · rw [hpieces, intercalate_cons hrest] at hjoin
      rcases hjoin with hjoin | hjoin
      · exact ⟨_, List.append_cancel_left (hjoin.trans hsrc.symm)⟩
      · rw [List.append_assoc, List.append_assoc] at hjoin
        exact ⟨_, List.append_cancel_left (hjoin.trans hsrc.symm)⟩

/-- **`Split` is inverted by joining just in case the first character of the separator that the
text has begins a separator.** -/
theorem inverts_iff (hseparator : separator ≠ []) :
    Inverts src separator ↔ WholeFirst src separator := by
  refine ⟨Inverts.wholeFirst, fun h => ?_⟩
  by_cases hnone : src.dropWhile (· ∉ separator) = []
  · have hrun : split src separator = some (.ok [src]) := by
      rw [split, findFirstOf_zero, if_pos hnone]
    have hnot := not_infix_of_dropWhile hseparator hnone
    exact ⟨[src], hrun, .inl (by simp [List.intercalate]), List.forall_mem_singleton.mpr hnot,
      fun _ => rfl⟩
  · have hprefix := h.resolve_left hnone
    obtain ⟨pieces, hrun, -, hjoin, hpieces⟩ :=
      @splitLoop_eq src separator (src.length + 1) 0 _ [] hseparator (Nat.le_refl _)
        (find_of_prefix_dropWhile hseparator hprefix)
    have hsplit : split src separator = some (.ok pieces) := by
      rw [split, findFirstOf_zero, if_neg hnone]
      exact hrun
    exact ⟨pieces, hsplit, hjoin, hpieces,
      fun hnot => absurd (infix_of_prefix_dropWhile hprefix) hnot⟩

theorem inverts_iff_colons :
    split "a::::b::".toList [':', ':'] = some (.ok [['a'], [], ['b']]) ∧
      Inverts "a::::b::".toList [':', ':'] :=
  ⟨by decide, (inverts_iff (by decide)).mpr (by decide)⟩

/-- A single character of the separator is taken for the whole, and the text behind it is lost. -/
theorem dash_not_inverted : split "a-b--c".toList ['-', '-'] = some (.ok [['a'], [], ['c']]) ∧
    ¬ Inverts "a-b--c".toList ['-', '-'] := by
  have hrun : split "a-b--c".toList ['-', '-'] = some (.ok [['a'], [], ['c']]) := by decide
  refine ⟨hrun, ?_⟩
  rintro ⟨pieces, hpieces, hjoin, -, -⟩
  rw [hrun] at hpieces
  cases hpieces
  revert hjoin
  decide

/-! ## `Str2Size` -/

/-- `ONE_KB`, `ONE_MB` and `ONE_GB` are of 32 bits, `ONE_TB` of 64. -/
def oneKb : UInt32 := (1 : UInt32) <<< 10
def oneMb : UInt32 := (1 : UInt32) <<< 20
def oneGb : UInt32 := (1 : UInt32) <<< 30
def oneTb : UInt64 := (1 : UInt64) <<< 40

/-- The entries of `g_SizeMap`, whose default is 0. -/
def sizeMap : List (Char × UInt64) :=
  [('B', 1), ('K', oneKb.toUInt64), ('M', oneMb.toUInt64), ('G', oneGb.toUInt64), ('T', oneTb)]

/-- `GetValue` of a `KVMap`, whose class is not here: the value of a key, or else the default. -/
structure IsGetValue (entries : List (Char × UInt64)) (default : UInt64)
    (getValue : Char → UInt64) : Prop where
  found : ∀ p ∈ entries, getValue p.1 = p.2
  missing : ∀ key, (∀ p ∈ entries, p.1 ≠ key) → getValue key = default

/-- `regex_match` with `[0-9]+[BKMGT]?` -/
def regexMatch (str : List Char) : Bool :=
  !(str.takeWhile Char.isDigit).isEmpty &&
    match str.dropWhile Char.isDigit with
    | [] => true
    | [c] => ['B', 'K', 'M', 'G', 'T'].contains c
    | _ => false

/-- `Str2Size`, with `GetValue` of `g_SizeMap` -/
def str2Size (getValue : Char → UInt64) (str : List Char) : Except StdException UInt64 :=
  if !regexMatch str then .ok 0
  else do
    let index := str.length - 1
    let unit := getValue (str.getD index (Char.ofNat 0))
    let number ← substr str 0 (if unit ≠ 0 then index else index + 1)
    let value ← stoull number
    return value * (if unit ≠ 0 then unit else 1)

/-- The units of a size. -/
def units : List (Char × Nat) :=
  [('B', 1), ('K', 2 ^ 10), ('M', 2 ^ 20), ('G', 2 ^ 30), ('T', 2 ^ 40)]

/-- The text is this number with this unit, or without one. -/
def Spells (str : List Char) (number unit : Nat) : Prop :=
  ∃ digits, digits ≠ [] ∧ (∀ c ∈ digits, c.isDigit = true) ∧
    number = Nat.ofDigitChars 10 digits 0 ∧
      ((str = digits ∧ unit = 1) ∨ ∃ c, str = digits ++ [c] ∧ (c, unit) ∈ units)

/-- A size is read where it fits in 64 bits, and anything else is rejected with 0. -/
def MeetsSize (getValue : Char → UInt64) (str : List Char) : Prop :=
  (∀ number unit, Spells str number unit →
    str2Size getValue str =
      .ok (if number * unit < 2 ^ 64 then UInt64.ofNat (number * unit) else 0)) ∧
    ((∀ number unit, ¬ Spells str number unit) → str2Size getValue str = .ok 0)

/-- A size that the text spells fits, or its number does and the product wraps to zero. -/
def FitsOrVanishes (str : List Char) : Prop :=
  ∀ number unit, Spells str number unit →
    number * unit < 2 ^ 64 ∨ number < 2 ^ 64 ∧ number * unit % 2 ^ 64 = 0

variable {getValue : Char → UInt64} {digits : List Char} {number unit : Nat}

/-! ### The form -/

theorem takeWhile_digits {rest : List Char} (hdigits : ∀ c ∈ digits, c.isDigit = true)
    (hrest : ∀ c ∈ rest.head?, c.isDigit = false) :
    (digits ++ rest).takeWhile Char.isDigit = digits ∧
      (digits ++ rest).dropWhile Char.isDigit = rest := by
  rw [List.takeWhile_append_of_pos hdigits, List.dropWhile_append_of_pos hdigits]
  cases rest with
  | nil => simp
  | cons c rest => simp [hrest c rfl]

/-- A unit is a letter of the expression, and no digit. -/
theorem unit_of_mem {c : Char} (h : (c, unit) ∈ units) :
    c ∈ ['B', 'K', 'M', 'G', 'T'] ∧ c.isDigit = false ∧
      (c, UInt64.ofNat unit) ∈ sizeMap ∧ UInt64.ofNat unit ≠ 0 ∧ 1 ≤ unit := by
  simp only [units, List.mem_cons, Prod.mk.injEq, List.not_mem_nil, or_false] at h
  rcases h with ⟨rfl, rfl⟩ | ⟨rfl, rfl⟩ | ⟨rfl, rfl⟩ | ⟨rfl, rfl⟩ | ⟨rfl, rfl⟩ <;> decide

/-- A size has its digits and its unit where the expression has them. -/
theorem Spells.regexMatch (h : Spells str number unit) : regexMatch str = true := by
  obtain ⟨digits, hne, hdigits, -, hform⟩ := h
  rcases hform with ⟨rfl, -⟩ | ⟨c, rfl, hunit⟩
  · obtain ⟨htake, hdrop⟩ := @takeWhile_digits str [] hdigits (by simp)
    rw [List.append_nil] at htake hdrop
    simp [Hilog.regexMatch, htake, hdrop, hne]
  · obtain ⟨hletter, hdigit, -⟩ := unit_of_mem hunit
    obtain ⟨htake, hdrop⟩ := @takeWhile_digits digits [c] hdigits (by simpa using hdigit)
    have hcontains := List.contains_iff_mem.mpr hletter
    simp only [Hilog.regexMatch, htake, hdrop, hcontains, Bool.and_true]
    simpa using hne

theorem Spells.unit_pos (h : Spells str number unit) : 1 ≤ unit := by
  obtain ⟨_, -, -, -, ⟨-, rfl⟩ | ⟨c, -, hunit⟩⟩ := h
  · exact Nat.le_refl 1
  · exact (unit_of_mem hunit).2.2.2.2

/-- Each letter of the expression is a unit. -/
theorem exists_unit {c : Char} (h : c ∈ ['B', 'K', 'M', 'G', 'T']) : ∃ unit, (c, unit) ∈ units := by
  simp only [List.mem_cons, List.not_mem_nil, or_false] at h
  rcases h with rfl | rfl | rfl | rfl | rfl
  · exact ⟨1, by decide⟩
  · exact ⟨2 ^ 10, by decide⟩
  · exact ⟨2 ^ 20, by decide⟩
  · exact ⟨2 ^ 30, by decide⟩
  · exact ⟨2 ^ 40, by decide⟩

/-- **The expression matches the texts that spell a size.** -/
theorem regexMatch_iff : regexMatch str = true ↔ ∃ number unit, Spells str number unit := by
  constructor
  · intro h
    obtain ⟨hempty, hunit⟩ := Bool.and_eq_true_iff.mp h
    have hne : str.takeWhile Char.isDigit ≠ [] := by simpa using hempty
    have hstr := @List.takeWhile_append_dropWhile _ Char.isDigit str
    have hdigits : ∀ c ∈ str.takeWhile Char.isDigit, c.isDigit = true :=
      fun c hc => List.mem_takeWhile_imp hc
    split at hunit
    · next hnone =>
      rw [hnone, List.append_nil] at hstr
      exact ⟨_, 1, _, hne, hdigits, rfl, .inl ⟨hstr.symm, rfl⟩⟩
    · next c hone =>
      obtain ⟨unit, hunit⟩ := exists_unit (List.contains_iff_mem.mp hunit)
      rw [hone] at hstr
      exact ⟨_, unit, _, hne, hdigits, rfl, .inr ⟨c, hstr.symm, hunit⟩⟩
    · cases hunit
  · rintro ⟨number, unit, h⟩
    exact h.regexMatch

/-! ### The value -/

theorem readNat_digits (hdigits : ∀ c ∈ digits, c.isDigit = true) :
    readNat digits = Nat.ofDigitChars 10 digits 0 := by
  obtain ⟨htake, -⟩ := @takeWhile_digits digits [] hdigits (by simp)
  rw [List.append_nil] at htake
  rw [readNat, htake]

/-- A digit is no key of the map. -/
theorem getValue_digit (hget : IsGetValue sizeMap 0 getValue) {c : Char} (hc : c.isDigit = true) :
    getValue c = 0 := by
  refine hget.missing c fun p hp hkey => ?_
  subst hkey
  simp only [sizeMap, List.mem_cons, List.not_mem_nil, or_false] at hp
  rcases hp with rfl | rfl | rfl | rfl | rfl <;> exact absurd hc (by decide)

/-- A text without a unit is read as a whole. -/
theorem str2Size_digits (hget : IsGetValue sizeMap 0 getValue) (hne : digits ≠ [])
    (hdigits : ∀ c ∈ digits, c.isDigit = true) (hmatch : regexMatch digits = true) :
    str2Size getValue digits = stoull digits := by
  have hlength := List.length_pos_iff.mpr hne
  have hlast : (digits.getD (digits.length - 1) (Char.ofNat 0)).isDigit = true := by
    rw [List.getD_eq_getElem?_getD, List.getElem?_eq_getElem (by omega)]
    exact hdigits _ (List.getElem_mem _)
  have htake : digits.take (digits.length - 1 + 1) = digits :=
    List.take_of_length_le (by omega)
  simp only [str2Size, hmatch, Bool.not_true, Bool.false_eq_true, getValue_digit hget hlast,
    substr_of_le (Nat.zero_le _), List.drop_zero, ne_eq, not_true_eq_false, if_false, htake]
  show (stoull digits >>= fun value => pure (value * 1)) = stoull digits
  cases stoull digits with
  | error e => rfl
  | ok value =>
    show Except.ok (value * 1) = _
    rw [UInt64.mul_one]

/-- A unit is taken off and multiplied. -/
theorem str2Size_unit {c : Char} (hc : getValue c ≠ 0)
    (hmatch : regexMatch (digits ++ [c]) = true) :
    str2Size getValue (digits ++ [c]) = (stoull digits).map (· * getValue c) := by
  have hindex : (digits ++ [c]).length - 1 = digits.length := by simp
  have hlast : (digits ++ [c]).getD digits.length (Char.ofNat 0) = c := by simp
  simp only [str2Size, hmatch, Bool.not_true, Bool.false_eq_true, if_false, hindex, hlast,
    substr_of_le (Nat.zero_le _), List.drop_zero, if_pos hc, List.take_left]
  show (stoull digits >>= fun value => pure (value * getValue c)) = _
  cases stoull digits with
  | error e => rfl
  | ok value => rfl

/-- **What is read of a size: the product in 64 bits, or nothing where the number is too large.** -/
theorem Spells.str2Size (hget : IsGetValue sizeMap 0 getValue) (h : Spells str number unit) :
    str2Size getValue str =
      if number < 2 ^ 64 then .ok (UInt64.ofNat (number * unit)) else .error .outOfRange := by
  have hmatch := h.regexMatch
  obtain ⟨digits, hne, hdigits, hnumber, hform⟩ := h
  have hread := readNat_digits hdigits
  rw [← hnumber] at hread
  rcases hform with ⟨rfl, rfl⟩ | ⟨c, rfl, hunit⟩
  · rw [str2Size_digits hget hne hdigits hmatch, stoull, hread, Nat.mul_one]
  · obtain ⟨-, -, hentry, hne', -⟩ := unit_of_mem hunit
    have hvalue : getValue c = UInt64.ofNat unit := hget.found _ hentry
    rw [str2Size_unit (hvalue ▸ hne') hmatch, stoull, hread, hvalue]
    split
    · rw [UInt64.ofNat_mul]
      rfl
    · rfl

/-- The value of the first entry with the key. -/
def findValue (entries : List (Char × UInt64)) (default : UInt64) (key : Char) : UInt64 :=
  ((entries.find? (·.1 == key)).map (·.2)).getD default

theorem isGetValue_findValue : IsGetValue sizeMap 0 (findValue sizeMap 0) where
  found := by decide
  missing key h := by
    have hnone : sizeMap.find? (·.1 == key) = none :=
      List.find?_eq_none.mpr fun p hp => by simpa using h p hp
    rw [findValue, hnone]
    rfl

/-- **A size is read where it fits and rejected elsewhere just in case it fits, or its number does
and the product wraps to zero.** -/
theorem meetsSize_iff (hget : IsGetValue sizeMap 0 getValue) :
    MeetsSize getValue str ↔ FitsOrVanishes str := by
  constructor
  · rintro ⟨hspells, -⟩ number unit h
    have hsize := hspells number unit h
    rw [h.str2Size hget] at hsize
    by_cases hfits : number * unit < 2 ^ 64
    · exact .inl hfits
    · rw [if_neg hfits] at hsize
      split at hsize
      · next hnumber =>
        have hzero := congrArg UInt64.toNat (Except.ok.inj hsize)
        rw [UInt64.toNat_ofNat'] at hzero
        exact .inr ⟨hnumber, hzero⟩
      · cases hsize
  · intro h
    constructor
    · intro number unit hspells
      rw [hspells.str2Size hget]
      rcases h number unit hspells with hfits | ⟨hnumber, hzero⟩
      · have hnumber := Nat.lt_of_le_of_lt (Nat.le_mul_of_pos_right number hspells.unit_pos) hfits
        rw [if_pos hnumber, if_pos hfits]
      · have hvanishes : UInt64.ofNat (number * unit) = 0 := by
          rw [← UInt64.toNat_inj, UInt64.toNat_ofNat']
          exact hzero
        rw [if_pos hnumber, hvanishes, ite_self]
    · intro hnone
      have hmatch : ¬ regexMatch str = true := by
        rw [regexMatch_iff]
        rintro ⟨number, unit, hspells⟩
        exact hnone number unit hspells
      simp [str2Size, hmatch]

/-- `8T` is 2 ^ 43. -/
theorem meetsSize_iff_eight : MeetsSize (findValue sizeMap 0) ['8', 'T'] := by
  refine (meetsSize_iff isGetValue_findValue).mpr ?_
  rintro number unit ⟨digits, -, hdigits, rfl, hform⟩
  left
  rcases hform with ⟨rfl, -⟩ | ⟨c, hstr, hunit⟩
  · exact absurd (hdigits 'T' (by decide)) (by decide)
  · obtain ⟨rfl, hc⟩ := List.append_inj' (show ['8'] ++ ['T'] = digits ++ [c] from hstr) rfl
    cases hc
    simp only [units, List.mem_cons, Prod.mk.injEq, List.not_mem_nil, or_false] at hunit
    rcases hunit with ⟨h, rfl⟩ | ⟨h, rfl⟩ | ⟨h, rfl⟩ | ⟨h, rfl⟩ | ⟨h, rfl⟩ <;> revert h <;> decide

/-- Too many tebibytes wrap to one, and a number of more than 64 bits throws. -/
theorem size_wraps :
    str2Size (findValue sizeMap 0) "16777217T".toList = .ok oneTb ∧
      str2Size (findValue sizeMap 0) "18446744073709551616".toList = .error .outOfRange ∧
      ¬ MeetsSize (findValue sizeMap 0) "16777217T".toList := by
  have hmebi : Spells "16777217T".toList 16777217 (2 ^ 40) :=
    ⟨"16777217".toList, by decide, List.all_eq_true.mp (by decide), by decide,
      .inr ⟨'T', by decide, by decide⟩⟩
  have hlarge : Spells "18446744073709551616".toList (2 ^ 64) 1 :=
    ⟨_, by decide, List.all_eq_true.mp (by decide), by decide, .inl ⟨rfl, rfl⟩⟩
  have hwraps := hmebi.str2Size isGetValue_findValue
  have hthrows := hlarge.str2Size isGetValue_findValue
  rw [if_pos (by decide)] at hwraps
  rw [if_neg (by decide)] at hthrows
  refine ⟨hwraps, hthrows, fun h => ?_⟩
  have hsize := h.1 _ _ hmebi
  rw [hwraps] at hsize
  revert hsize
  decide

end Hilog
