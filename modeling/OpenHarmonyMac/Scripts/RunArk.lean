import OpenHarmonyMac.Infra.CString

/-!
# The output of the ark runner

`run_ark_executable.py` compares what a program printed with a file, line by line. A line of the
file may stand for any number, or for any that is more than the one before it.

* `compareLineByLine` — the comparison, which `int` may end
* `compareLine_cases` — what it makes of a line
* `compareLineByLine_judges_iff` — when it says whether the lines match
-/

namespace RunArk

open Infra

abbrev Text := List Char

/-- What Python knows of characters: those of which `isdigit` is true, and the values of those that
`int` reads. It reads no more than `limit` of them, if that is not zero. -/
structure Python where
  isDigit : Char → Bool
  decimal : Char → Option Nat
  limit : Nat
  isDigit_of_decimal : ∀ c n, decimal c = some n → isDigit c = true

def contains (needle s : Text) : Bool := (strstr needle s).isSome

def intMark : Text := "__INT__".toList

def moreMark : Text := "__INT_MORE_PREV__".toList

/-- What is printed of a line. -/
structure Difference where
  errorMsg : Text
  line : Nat
  expectLine : Text
  gotLine : Text
  deriving DecidableEq, Repr

/-- A `ValueError` -/
inductive Failure where
  | valueError
  deriving DecidableEq, Repr

section Compare

variable (python : Python)

/-- `str.isdigit` -/
def Python.isdigit (s : Text) : Bool := !s.isEmpty && s.all python.isDigit

/-- The number that decimal digits spell. -/
def Python.value (s : Text) : Option Nat :=
  if !s.isEmpty && s.all (python.decimal · |>.isSome) then
    some (s.foldl (fun n c => 10 * n + (python.decimal c).getD 0) 0)
  else none

/-- `int` of digits -/
def Python.int (s : Text) : Except Failure Nat :=
  if python.limit ≠ 0 ∧ python.limit < s.length then .error .valueError
  else
    match python.value s with
    | none => .error .valueError
    | some n => .ok n

/-- `reverse_find_first_not_trace_line`, for the lines in front of `index` -/
def reverseFindFirstNotTraceLine (outputList : List Text) (index : Nat) : Text :=
  ((outputList.take index).reverse.find? (! contains "[trace]".toList ·)).getD []

/-- The two conditions for `__INT_MORE_PREV__` -/
def isMore (expectLine prev gotLine : Text) : Except Failure Bool :=
  if contains moreMark expectLine ∧ python.isdigit gotLine ∧ python.isdigit prev then do
    let m ← python.int prev
    let n ← python.int gotLine
    return m < n
  else .ok false

/-- The body of the loop: the difference, if there is one. -/
def compareLine (gotOutputList : List Text) (index : Nat) (expectLine gotLine : Text) :
    Except Failure (Option Difference) := do
  if expectLine = gotLine then return none
  if ← isMore python expectLine (reverseFindFirstNotTraceLine gotOutputList index) gotLine then
    return none
  if contains intMark expectLine && python.isdigit gotLine then return none
  return some
    { errorMsg :=
        if contains intMark expectLine then "Got not integer".toList
        else if contains moreMark expectLine then
          "Got integer result is not more than previous integer result".toList
        else []
      line := index + 1
      expectLine := expectLine
      gotLine := gotLine }

/-- The loop. -/
def compareLines (gotOutputList : List Text) :
    Nat → List (Text × Text) → Except Failure (Option Difference)
  | _, [] => .ok none
  | index, (expectLine, gotLine) :: rest => do
    match ← compareLine python gotOutputList index expectLine gotLine with
    | none => compareLines gotOutputList (index + 1) rest
    | some d => return some d

/-- `compare_line_by_line`, with what is printed where it returns `True` -/
def compareLineByLine (expectOutput gotOutput : Text) : Except Failure (Option Difference) :=
  compareLines python (gotOutput.splitOn '\n') 0
    ((expectOutput.splitOn '\n').zip (gotOutput.splitOn '\n'))

/-! ## What the comparison should say -/

/-- The line of the output is the number that the line of the file stands for. An integer is a line
of digits: one with a sign is none. -/
inductive Matches (gotOutputList : List Text) (index : Nat) (expectLine gotLine : Text) : Prop
  | equal (h : expectLine = gotLine)
  | int (mark : contains intMark expectLine = true) (digits : python.isdigit gotLine = true)
  | more {m n : Nat} (mark : contains moreMark expectLine = true)
      (prev : python.value (reverseFindFirstNotTraceLine gotOutputList index) = some m)
      (got : python.value gotLine = some n) (lt : m < n)

/-- The lines that both outputs have. -/
def common (expectOutput gotOutput : Text) : List (Text × Text) :=
  (expectOutput.splitOn '\n').zip (gotOutput.splitOn '\n')

/-- Every line of both outputs has one of the other to match. -/
structure SameLines (expectOutput gotOutput : Text) : Prop where
  length_eq : (expectOutput.splitOn '\n').length = (gotOutput.splitOn '\n').length
  lines : ∀ i p, (common expectOutput gotOutput)[i]? = some p →
    Matches python (gotOutput.splitOn '\n') i p.1 p.2

/-- The comparison comes to an end and finds no difference exactly where there is none. -/
def Judges (expectOutput gotOutput : Text) : Prop :=
  ∃ r, compareLineByLine python expectOutput gotOutput = .ok r ∧
    (r = none ↔ SameLines python expectOutput gotOutput)

/-- Two lines of digits are to be compared, and `int` does not read one of them. -/
structure Unreadable (gotOutputList : List Text) (index : Nat) (expectLine gotLine : Text) :
    Prop where
  ne : expectLine ≠ gotLine
  mark : contains moreMark expectLine = true
  digits : python.isdigit gotLine = true
  prev : python.isdigit (reverseFindFirstNotTraceLine gotOutputList index) = true
  unread : ¬ ((python.int (reverseFindFirstNotTraceLine gotOutputList index)).isOk ∧
    (python.int gotLine).isOk)

end Compare

/-! ## A line -/

section Line

variable {python : Python} {gotOutputList : List Text} {index : Nat}
  {expectLine gotLine prev s : Text}

theorem isdigit_of_value {n : Nat} (h : python.value s = some n) : python.isdigit s = true := by
  unfold Python.value at h
  split at h
  case isFalse => cases h
  case isTrue hdecimal =>
    rw [Bool.and_eq_true, List.all_eq_true] at hdecimal
    rw [Python.isdigit, Bool.and_eq_true, List.all_eq_true]
    refine ⟨hdecimal.1, fun c hc => ?_⟩
    obtain ⟨d, hd⟩ := Option.isSome_iff_exists.mp (hdecimal.2 c hc)
    exact python.isDigit_of_decimal c d hd

theorem value_of_int {n : Nat} (h : python.int s = .ok n) : python.value s = some n := by
  unfold Python.int at h
  split at h
  case isTrue => cases h
  case isFalse =>
    cases hvalue : python.value s with
    | none => simp [hvalue] at h
    | some m => simpa [hvalue] using h

/-- What the conditions for `__INT_MORE_PREV__` are. -/
theorem isMore_cases (python : Python) (expectLine prev gotLine : Text) :
    isMore python expectLine prev gotLine = .error .valueError ∧
        contains moreMark expectLine = true ∧ python.isdigit gotLine = true ∧
        python.isdigit prev = true ∧ ¬ ((python.int prev).isOk ∧ (python.int gotLine).isOk) ∨
      ∃ b, isMore python expectLine prev gotLine = .ok b ∧
        (contains moreMark expectLine = true → python.isdigit gotLine = true →
          python.isdigit prev = true → (python.int prev).isOk ∧ (python.int gotLine).isOk) ∧
        (b = true ↔ contains moreMark expectLine = true ∧ ∃ m n, python.value prev = some m ∧
          python.value gotLine = some n ∧ m < n) := by
  by_cases hif : contains moreMark expectLine ∧ python.isdigit gotLine ∧ python.isdigit prev
  · have hmore : isMore python expectLine prev gotLine = (do
        let m ← python.int prev
        let n ← python.int gotLine
        return m < n) := if_pos hif
    cases hprev : python.int prev with
    | error e =>
      cases e
      refine .inl ⟨by rw [hmore, hprev]; rfl, hif.1, hif.2.1, hif.2.2, ?_⟩
      simp [Except.isOk, Except.toBool]
    | ok m =>
      cases hgot : python.int gotLine with
      | error e =>
        cases e
        refine .inl ⟨by rw [hmore, hprev, hgot]; rfl, hif.1, hif.2.1, hif.2.2, ?_⟩
        simp [Except.isOk, Except.toBool]
      | ok n =>
        refine .inr ⟨m < n, by rw [hmore, hprev, hgot]; rfl, fun _ _ _ => ⟨rfl, rfl⟩, ?_⟩
        simp [hif.1, value_of_int hprev, value_of_int hgot]
  · refine .inr ⟨false, if_neg hif, fun hmark hgot hprev => absurd ⟨hmark, hgot, hprev⟩ hif, ?_⟩
    refine iff_of_false (by simp) ?_
    rintro ⟨hmark, m, n, hm, hn, -⟩
    exact hif ⟨hmark, isdigit_of_value hn, isdigit_of_value hm⟩

/-- What the comparison makes of a line. -/
theorem compareLine_cases (python : Python) (gotOutputList : List Text) (index : Nat)
    (expectLine gotLine : Text) :
    compareLine python gotOutputList index expectLine gotLine = .error .valueError ∧
        Unreadable python gotOutputList index expectLine gotLine ∨
      ¬ Unreadable python gotOutputList index expectLine gotLine ∧
        ((compareLine python gotOutputList index expectLine gotLine = .ok none ∧
            Matches python gotOutputList index expectLine gotLine) ∨
          ((∃ d, compareLine python gotOutputList index expectLine gotLine = .ok (some d)) ∧
            ¬ Matches python gotOutputList index expectLine gotLine)) := by
  by_cases heq : expectLine = gotLine
  · refine .inr ⟨fun h => h.ne heq, .inl ⟨?_, .equal heq⟩⟩
    rw [compareLine, if_pos heq]
    rfl
  rcases isMore_cases python expectLine (reverseFindFirstNotTraceLine gotOutputList index)
    gotLine with ⟨herror, hmark, hgot, hprev, hunread⟩ | ⟨b, hok, hread, hb⟩
  · refine .inl ⟨?_, heq, hmark, hgot, hprev, hunread⟩
    rw [compareLine, if_neg heq, herror]
    rfl
  refine .inr ⟨fun h => h.unread (hread h.mark h.digits h.prev), ?_⟩
  rw [compareLine, if_neg heq, hok]
  cases b with
  | true =>
    obtain ⟨hmark, m, n, hm, hn, hlt⟩ := hb.mp rfl
    exact .inl ⟨rfl, .more hmark hm hn hlt⟩
  | false =>
    by_cases hint : (contains intMark expectLine && python.isdigit gotLine) = true
    · refine .inl ⟨by simp only [hint]; rfl, ?_⟩
      rw [Bool.and_eq_true] at hint
      exact .int hint.1 hint.2
    · refine .inr ⟨⟨_, by simp only [hint]; rfl⟩, ?_⟩
      intro h
      cases h with
      | equal h => exact heq h
      | int mark digits => exact hint (Bool.and_eq_true _ _ ▸ ⟨mark, digits⟩)
      | more mark prev got lt => exact absurd (hb.mpr ⟨mark, _, _, prev, got, lt⟩) (by simp)

end Line

/-! ## The loop -/

section Loop

variable {python : Python} {gotOutputList : List Text} {index : Nat} {rest : List (Text × Text)}

/-- The loop finds no difference where each line matches and can be read. -/
theorem compareLines_eq_ok_none_iff :
    compareLines python gotOutputList index rest = .ok none ↔ ∀ i p, rest[i]? = some p →
      ¬ Unreadable python gotOutputList (index + i) p.1 p.2 ∧
        Matches python gotOutputList (index + i) p.1 p.2 := by
  induction rest generalizing index with
  | nil => simp [compareLines]
  | cons p rest ih =>
    have hshift (i : Nat) : index + 1 + i = index + (i + 1) := by omega
    have htail := @ih (index + 1)
    simp only [hshift] at htail
    rw [compareLines]
    rcases compareLine_cases python gotOutputList index p.1 p.2 with
      ⟨hline, hunread⟩ | ⟨hread, ⟨hline, hmatch⟩ | ⟨⟨d, hline⟩, hmatch⟩⟩
    · rw [hline]
      exact iff_of_false (by intro h; cases h) fun h => (h 0 p rfl).1 hunread
    · rw [hline]
      refine htail.trans ⟨fun h i q hq => ?_, fun h i q hq => h (i + 1) q hq⟩
      cases i with
      | zero =>
        cases hq
        exact ⟨hread, hmatch⟩
      | succ i => exact h i q hq
    · rw [hline]
      exact iff_of_false (by intro h; cases h) fun h => hmatch (h 0 p rfl).2

/-- The loop comes to an end where a line that cannot be read stands behind one that does not
match. -/
theorem compareLines_isOk_iff :
    (∃ r, compareLines python gotOutputList index rest = .ok r) ↔ ∀ i p, rest[i]? = some p →
      Unreadable python gotOutputList (index + i) p.1 p.2 →
        ∃ j < i, ∃ q, rest[j]? = some q ∧ ¬ Matches python gotOutputList (index + j) q.1 q.2 := by
  induction rest generalizing index with
  | nil => exact iff_of_true ⟨_, rfl⟩ (by simp)
  | cons p rest ih =>
    have hshift (i : Nat) : index + 1 + i = index + (i + 1) := by omega
    have htail := @ih (index + 1)
    simp only [hshift] at htail
    rw [compareLines]
    rcases compareLine_cases python gotOutputList index p.1 p.2 with
      ⟨hline, hunread⟩ | ⟨hread, ⟨hline, hmatch⟩ | ⟨⟨d, hline⟩, hmatch⟩⟩
    · rw [hline]
      refine iff_of_false (by rintro ⟨r, hr⟩; cases hr) fun h => ?_
      obtain ⟨j, hj, -⟩ := h 0 p rfl hunread
      exact absurd hj (Nat.not_lt_zero j)
    · rw [hline]
      refine htail.trans ⟨fun h i q hq hunread => ?_, fun h i q hq hunread => ?_⟩
      · cases i with
        | zero =>
          cases hq
          exact absurd hunread hread
        | succ i =>
          obtain ⟨j, hj, q', hq', hne⟩ := h i q hq hunread
          exact ⟨j + 1, by omega, q', hq', hne⟩
      · obtain ⟨j, hj, q', hq', hne⟩ := h (i + 1) q hq hunread
        cases j with
        | zero =>
          cases hq'
          exact absurd hmatch hne
        | succ j => exact ⟨j, by omega, q', hq', hne⟩
    · rw [hline]
      refine iff_of_true ⟨_, rfl⟩ fun i q hq hunread => ?_
      cases i with
      | zero =>
        cases hq
        exact absurd hunread hread
      | succ i => exact ⟨0, Nat.succ_pos i, p, rfl, hmatch⟩

end Loop

/-- The outputs have as many lines as each other or differ in one that both have, and in front of
each line that `int` would not read stands one that differs. -/
structure Comparable (python : Python) (expectOutput gotOutput : Text) : Prop where
  lengths : (expectOutput.splitOn '\n').length = (gotOutput.splitOn '\n').length ∨
    ∃ i p, (common expectOutput gotOutput)[i]? = some p ∧
      ¬ Matches python (gotOutput.splitOn '\n') i p.1 p.2
  readable : ∀ i p, (common expectOutput gotOutput)[i]? = some p →
    Unreadable python (gotOutput.splitOn '\n') i p.1 p.2 →
      ∃ j < i, ∃ q, (common expectOutput gotOutput)[j]? = some q ∧
        ¬ Matches python (gotOutput.splitOn '\n') j q.1 q.2

/-- The comparison says whether there is a difference exactly when there is one in the lines that
both outputs have or they have equally many, and `int` is not kept from its end. -/
theorem compareLineByLine_judges_iff (python : Python) (expectOutput gotOutput : Text) :
    Judges python expectOutput gotOutput ↔ Comparable python expectOutput gotOutput := by
  have hends : (∃ r, compareLineByLine python expectOutput gotOutput = .ok r) ↔
      ∀ i p, (common expectOutput gotOutput)[i]? = some p →
        Unreadable python (gotOutput.splitOn '\n') i p.1 p.2 →
          ∃ j < i, ∃ q, (common expectOutput gotOutput)[j]? = some q ∧
            ¬ Matches python (gotOutput.splitOn '\n') j q.1 q.2 := by
    have h : (∃ r, compareLines python (gotOutput.splitOn '\n') 0
        (common expectOutput gotOutput) = .ok r) ↔ _ := compareLines_isOk_iff
    simp only [Nat.zero_add] at h
    exact h
  have hnone : compareLineByLine python expectOutput gotOutput = .ok none ↔
      ∀ i p, (common expectOutput gotOutput)[i]? = some p →
        ¬ Unreadable python (gotOutput.splitOn '\n') i p.1 p.2 ∧
          Matches python (gotOutput.splitOn '\n') i p.1 p.2 := by
    have h : compareLines python (gotOutput.splitOn '\n') 0
        (common expectOutput gotOutput) = .ok none ↔ _ := compareLines_eq_ok_none_iff
    simp only [Nat.zero_add] at h
    exact h
  constructor
  · rintro ⟨r, hr, hiff⟩
    refine ⟨?_, hends.mp ⟨r, hr⟩⟩
    by_contra hnot
    obtain ⟨hlength, hall⟩ := not_or.mp hnot
    have hmatch : ∀ i p, (common expectOutput gotOutput)[i]? = some p →
        Matches python (gotOutput.splitOn '\n') i p.1 p.2 := by
      intro i p hp
      by_contra hne
      exact hall ⟨i, p, hp, hne⟩
    have hread : compareLineByLine python expectOutput gotOutput = .ok none := by
      refine hnone.mpr fun i p hp => ⟨fun hunread => ?_, hmatch i p hp⟩
      obtain ⟨j, -, q, hq, hne⟩ := hends.mp ⟨r, hr⟩ i p hp hunread
      exact hne (hmatch j q hq)
    rw [hread, Except.ok.injEq] at hr
    exact hlength (hiff.mp hr.symm).length_eq
  · rintro ⟨hlengths, hreadable⟩
    obtain ⟨r, hr⟩ := hends.mpr hreadable
    refine ⟨r, hr, fun hrnone => ?_, fun hsame => ?_⟩
    · rw [hrnone] at hr
      have hall := hnone.mp hr
      refine ⟨hlengths.resolve_right ?_, fun i p hp => (hall i p hp).2⟩
      rintro ⟨i, p, hp, hne⟩
      exact hne (hall i p hp).2
    · have hread : compareLineByLine python expectOutput gotOutput = .ok none := by
        refine hnone.mpr fun i p hp => ⟨fun hunread => ?_, hsame.lines i p hp⟩
        obtain ⟨j, -, q, hq, hne⟩ := hreadable i p hp hunread
        exact hne (hsame.lines j q hq)
      rw [hread, Except.ok.injEq] at hr
      exact hr.symm

/-- Of the characters of Latin-1, the superscripts are digits that `int` does not read. -/
def latin1 : Python where
  isDigit c := c.isDigit || c.toNat == 0xb2 || c.toNat == 0xb3 || c.toNat == 0xb9
  decimal c := if c.isDigit then some (c.toNat - 48) else none
  limit := 4300
  isDigit_of_decimal c n h := by
    split at h
    case isTrue hdigit => simp [hdigit]
    case isFalse => cases h

/-- A line that is missing is no difference. -/
theorem missing_line_accepted : ¬ Judges latin1 "a\nb".toList "a".toList := by
  rintro ⟨r, hr, hiff⟩
  rw [show compareLineByLine latin1 "a\nb".toList "a".toList = .ok none from by decide,
    Except.ok.injEq] at hr
  exact absurd (hiff.mp hr.symm).length_eq (by decide)

end RunArk
