import OpenHarmonyMac.Infra.CString

/-!
# Printing a log of several lines

`LogPrintWithFormat` prints a prefix before each line of a log, or with `wrap` blanks of the width
of the prefix before all lines but the first.

* `printLogPrefix`, `adaptWrap` — what is printed before a line
* `prints_iff` — each line is printed once behind its prefix, just in case with `wrap` the text
  does not start with an empty line and the tag is valid UTF-8
-/

namespace Hilog

open Infra

/-! ## The record and the format -/

/-- The levels with a name of their own. -/
inductive LogLevel
  | debug | info | warn | error | fatal
  | other (level : UInt16)
  deriving DecidableEq, Repr

inductive LogType
  | app | init | core | kmsg | onlyPrerelease
  | other (type : UInt16)
  deriving DecidableEq, Repr

/-- Characters are bytes, and a string ends where its list does. -/
structure LogContent where
  level : LogLevel
  type : LogType
  pid : UInt32
  tid : UInt32
  domain : UInt32
  tvSec : UInt32
  tvNsec : UInt32
  monoSec : UInt32
  tag : List Char
  log : List Char

inductive FormatTime
  | time | monotonic | epoch | invalid
  deriving DecidableEq, Repr

inductive FormatTimeAccu
  | msec | usec | nsec | invalid
  deriving DecidableEq, Repr

structure LogFormat where
  colorful : Bool := false
  timeFormat : FormatTime := .time
  timeAccuFormat : FormatTimeAccu := .msec
  year : Bool := false
  zone : Bool := false
  wrap : Bool := false

/-- `struct tm` -/
structure Tm where
  zone : List Char
  year : Int
  mon : Int
  mday : Int
  hour : Int
  min : Int
  sec : Int

/-- What the source does not say: `localtime_r` of the host, `MAX_LOG_LEN`, and what
`LogLevel2ShortStr` gets from the table `g_ShortLogLevels`, as the class `StringMap` of this table is
not there. -/
structure Host where
  localtime : UInt32 → Option Tm
  logLevel2ShortStr : LogLevel → List Char
  maxLogLen : Nat

/-! ## The prefix -/

/-- `GetColor` -/
def getColor : LogLevel → Nat
  | .debug => 75
  | .info => 40
  | .warn => 166
  | .error => 196
  | .fatal => 226
  | .other _ => 231

/-- `GetLogTypePrefix` -/
def getLogTypePrefix : LogType → List Char
  | .app => ['A']
  | .init => ['I']
  | .core => ['C']
  | .kmsg => ['K']
  | .onlyPrerelease => ['P']
  | .other _ => [' ']

/-- `ShortDomain` -/
def shortDomain (d : UInt32) : UInt32 := d &&& 0xFFFFF

/-- `setfill(fill) << setw(width)` -/
def setw (fill : Char) (width : Nat) (text : List Char) : List Char := text.leftpad width fill

/-- The date and the time of `FormatTime::TIME`. -/
def printTime (format : LogFormat) (tl : Tm) : List Char :=
  (if format.zone then tl.zone ++ [' '] else []) ++
    (if format.year then formatInt (tl.year + 1900) ++ ['-'] else []) ++
    setw '0' 2 (formatInt (tl.mon + 1)) ++ ['-'] ++ setw '0' 2 (formatInt tl.mday) ++ [' '] ++
    setw '0' 2 (formatInt tl.hour) ++ [':'] ++ setw '0' 2 (formatInt tl.min) ++ [':'] ++
    setw '0' 2 (formatInt tl.sec)

/-- The fields behind the time. -/
def printFields (host : Host) (content : LogContent) : List Char :=
  if content.type ≠ .kmsg then
    [' '] ++ setw ' ' 5 (formatNat content.pid.toNat) ++ [' '] ++
      setw ' ' 5 (formatNat content.tid.toNat) ++ [' '] ++
      host.logLevel2ShortStr content.level ++ [' '] ++ getLogTypePrefix content.type ++
      setw '0' 5 (Nat.toDigits 16 (shortDomain content.domain).toNat) ++
      ['/'] ++ content.tag ++ [':', ' ']
  else [' '] ++ content.tag ++ [' ']

/-- The fraction of the second, and what is behind it. -/
def printAccu (host : Host) (content : LogContent) (format : LogFormat) : List Char :=
  let fraction := content.tvNsec.toNat
  match format.timeAccuFormat with
  | .msec => setw '0' 3 (formatNat (fraction / 1000000)) ++ printFields host content
  | .usec => setw '0' 6 (formatNat (fraction / 1000)) ++ printFields host content
  | .nsec => setw '0' 9 (formatNat fraction) ++ printFields host content
  | .invalid => "Invalid time accuracy format\n".toList

/-- `PrintLogPrefix` -/
def printLogPrefix (host : Host) (content : LogContent) (format : LogFormat) : List Char :=
  match format.timeFormat with
  | .time =>
    match host.localtime content.tvSec with
    | none => []
    | some tl => printTime format tl ++ ['.'] ++ printAccu host content format
  | .monotonic =>
    setw ' ' 8 (formatNat content.monoSec.toNat) ++ ['.'] ++ printAccu host content format
  | .epoch => setw ' ' 10 (formatNat content.tvSec.toNat) ++ ['.'] ++ printAccu host content format
  | .invalid => "Invalid time format\n".toList

/-- A byte between two bounds. -/
def inRange (lo hi : Nat) (c : Char) : Bool := lo ≤ c.toNat && c.toNat ≤ hi

/-- The second byte of a character of three or four bytes. -/
def second (c₁ c₂ : Char) : Bool :=
  if c₁.toNat = 0xE0 then inRange 0xA0 0xBF c₂
  else if c₁.toNat = 0xED then inRange 0x80 0x9F c₂
  else if c₁.toNat = 0xF0 then inRange 0x90 0xBF c₂
  else if c₁.toNat = 0xF4 then inRange 0x80 0x8F c₂
  else inRange 0x80 0xBF c₂

/-- The length of `StringToWstring`, which throws where the bytes are no UTF-8. -/
def wideLength : List Char → Option Nat
  | [] => some 0
  | c₁ :: rest =>
    if inRange 0 0x7F c₁ then (wideLength rest).map (· + 1)
    else
      match rest with
      | [] => none
      | c₂ :: rest =>
        if inRange 0xC2 0xDF c₁ && inRange 0x80 0xBF c₂ then (wideLength rest).map (· + 1)
        else
          match rest with
          | [] => none
          | c₃ :: rest =>
            if inRange 0xE0 0xEF c₁ && second c₁ c₂ && inRange 0x80 0xBF c₃ then
              (wideLength rest).map (· + 1)
            else
              match rest with
              | [] => none
              | c₄ :: rest =>
                if inRange 0xF0 0xF4 c₁ && second c₁ c₂ && inRange 0x80 0xBF c₃ &&
                    inRange 0x80 0xBF c₄ then
                  (wideLength rest).map (· + 1)
                else none

/-- The blanks before a wrapped line, as wide as the prefix of a tag of this length. -/
def padding (length : Nat) : List Char := setw ' ' (42 + length) [' ']

/-- `AdaptWrap`. There is no result where it throws. -/
def adaptWrap (host : Host) (content : LogContent) (format : LogFormat) : Option (List Char) :=
  if format.wrap then (wideLength content.tag).map padding
  else some (printLogPrefix host content format)

/-! ## The lines -/

/-- The loop of `LogPrintWithFormat`: `line` is the text from `pHead` to `pScan`, `rest` the text
from there on. The result is what was printed and the text from `pHead` on. An error is what was
printed before `std::range_error`. -/
def printLines (maxLogLen : Nat) (adapt : Option (List Char)) (line : List Char) :
    List Char → List Char → Except (List Char) (List Char × List Char)
  | [], out => .ok (out, line)
  | c :: rest, out =>
    if c = '\n' then
      -- `memcpy_s` into a buffer of `MAX_LOG_LEN`
      if maxLogLen - 1 < line.length then .ok (out, line ++ c :: rest)
      else
        let out := if line = [] then out else out ++ line ++ ['\n']
        if rest = [] ∨ rest.head? = some '\n' then printLines maxLogLen adapt [] rest out
        else
          match adapt with
          | none => .error out
          | some blanks => printLines maxLogLen adapt [] rest (out ++ blanks)
    else printLines maxLogLen adapt (line ++ [c]) rest out

/-- The escape sequence of a color, and the one that restores the default. -/
def setColor (level : LogLevel) : List Char :=
  "\x1B[38;5;".toList ++ formatNat (getColor level) ++ ['m']

def restoreColor : List Char := "\x1B[0m".toList

/-- `LogPrintWithFormat` -/
def logPrintWithFormat (host : Host) (content : LogContent) (format : LogFormat) :
    Except (List Char) (List Char) := do
  let color := if format.colorful then setColor content.level else []
  let first :=
    if content.log = [] ∨ content.log.head? = some '\n' then []
    else printLogPrefix host content format
  let (out, tail) ← printLines host.maxLogLen (adaptWrap host content format) [] content.log
    (color ++ first)
  return out ++ tail ++ (if format.colorful then restoreColor else []) ++
    if tail = [] then [] else ['\n']

/-! ## What is to be printed -/

/-- The lines of a text that are not empty. -/
def lines (text : List Char) : List (List Char) := (text.splitOn '\n').filter (· ≠ [])

/-- What is to stand before the lines behind the first one. -/
def laterPrefix (host : Host) (content : LogContent) (format : LogFormat) : List Char :=
  if format.wrap then padding ((wideLength content.tag).getD 0)
  else printLogPrefix host content format

/-- Each line once, in order, behind its prefix and with its newline. -/
def expected (host : Host) (content : LogContent) (format : LogFormat) : List Char :=
  match lines content.log with
  | [] => []
  | l :: ls =>
    printLogPrefix host content format ++ l ++ ['\n'] ++
      ls.flatMap fun l => laterPrefix host content format ++ l ++ ['\n']

/-- The log is printed as expected, between the two escape sequences if it is colored. The second
one stands before the newline of a text that does not end with one. -/
def Prints (host : Host) (content : LogContent) (format : LogFormat) : Prop :=
  ∃ body newline, body ++ newline = expected host content format ∧
    (newline = [] ∨ newline = ['\n']) ∧
    logPrintWithFormat host content format =
      .ok ((if format.colorful then setColor content.level else []) ++ body ++
        (if format.colorful then restoreColor else []) ++ newline)

/-- With `wrap`, the text does not start with an empty line or has only such lines, and the tag of
a text of two lines is UTF-8. -/
def WrapsLater (content : LogContent) (format : LogFormat) : Prop :=
  format.wrap = true →
    (content.log.head? ≠ some '\n' ∨ lines content.log = []) ∧
      (2 ≤ (lines content.log).length → (wideLength content.tag).isSome)

/-! ### The loop -/

/-- A line behind `before` and with its newline, if it is not empty. -/
def printed (before line : List Char) : List Char :=
  if line = [] then [] else before ++ line ++ ['\n']

/-- The first line of a text is empty where the loop prints no prefix for it. -/
theorem head_splitOn_eq_nil_iff {text line : List Char} {others : List (List Char)}
    (h : text.splitOn '\n' = line :: others) :
    line = [] ↔ text = [] ∨ text.head? = some '\n' := by
  cases text with
  | nil =>
    rw [List.splitOn_nil] at h
    simp [(List.cons.inj h).1]
  | cons c text =>
    rw [List.splitOn_cons_eq_if_modifyHead] at h
    by_cases hc : c = '\n'
    · rw [if_pos (beq_iff_eq.mpr hc)] at h
      simp [(List.cons.inj h).1, hc]
    · rw [if_neg (by simpa using hc)] at h
      cases hs : text.splitOn '\n' with
      | nil => exact absurd hs (List.splitOn_ne_nil _ _)
      | cons l ls =>
        rw [hs] at h
        simp [← (List.cons.inj h).1, hc]

variable {maxLogLen : Nat} {adapt : Option (List Char)} {line rest out current : List Char}
  {others : List (List Char)}

/-- A newline ends the line. What `AdaptWrap` prints follows, if the next line is not empty. -/
theorem printLines_newline {next : List Char} (hlen : line.length < maxLogLen)
    (hsplit : rest.splitOn '\n' = next :: others) :
    printLines maxLogLen adapt line ('\n' :: rest) out =
      if next = [] then printLines maxLogLen adapt [] rest (out ++ printed [] line)
      else match adapt with
        | none => .error (out ++ printed [] line)
        | some blanks => printLines maxLogLen adapt [] rest (out ++ printed [] line ++ blanks) := by
  have hout : (if line = [] then out else out ++ line ++ ['\n']) = out ++ printed [] line := by
    unfold printed
    split <;> simp
  rw [printLines, if_pos rfl, if_neg (by omega)]
  dsimp only
  rw [hout]
  by_cases hnext : next = []
  · rw [if_pos hnext, if_pos ((head_splitOn_eq_nil_iff hsplit).mp hnext)]
  · rw [if_neg hnext, if_neg (mt (head_splitOn_eq_nil_iff hsplit).mpr hnext)]

/-- The line that a newline ends, and the lines behind it. -/
theorem splitOn_newline (hline : '\n' ∉ line)
    (hsplit : (line ++ '\n' :: rest).splitOn '\n' = current :: others) :
    current = line ∧ ∃ next others', others = next :: others' ∧
      rest.splitOn '\n' = next :: others' := by
  rw [List.splitOn_append_cons_self_of_not_mem hline] at hsplit
  obtain ⟨rfl, hothers⟩ := List.cons.inj hsplit
  obtain ⟨next, others', hcons⟩ := List.exists_cons_of_ne_nil (List.splitOn_ne_nil '\n' rest)
  exact ⟨rfl, next, others', hothers.symm.trans hcons, hcons⟩

/-- **The loop prints each line behind the first one behind what `AdaptWrap` prints.** -/
theorem printLines_eq {before : List Char} (hline : '\n' ∉ line)
    (hlen : line.length + rest.length < maxLogLen)
    (hsplit : (line ++ rest).splitOn '\n' = current :: others)
    (hadapt : ∀ l ∈ others, l ≠ [] → adapt = some before) :
    ∃ new tail, printLines maxLogLen adapt line rest out = .ok (out ++ new, tail) ∧
      new ++ printed [] tail = printed [] current ++ others.flatMap (printed before) := by
  induction rest generalizing line out current others with
  | nil =>
    rw [List.append_nil, List.splitOn_eq_singleton hline] at hsplit
    cases hsplit
    exact ⟨[], line, by simp [printLines], by simp⟩
  | cons c rest ih =>
    rw [List.length_cons] at hlen
    by_cases hc : c = '\n'
    · subst hc
      obtain ⟨rfl, next, others, rfl, hothers⟩ := splitOn_newline hline hsplit
      have hlater : ∀ l ∈ others, l ≠ [] → adapt = some before :=
        fun l hl => hadapt l (List.mem_cons_of_mem _ hl)
      have hshort : ([] : List Char).length + rest.length < maxLogLen := by
        rw [List.length_nil]
        omega
      rw [printLines_newline (by omega) hothers]
      by_cases hnext : next = []
      · obtain ⟨new, tail, hrun, heq⟩ :=
          @ih [] (out ++ printed [] current) next others List.not_mem_nil hshort hothers hlater
        refine ⟨printed [] current ++ new, tail, ?_, ?_⟩
        · rw [if_pos hnext, hrun, List.append_assoc]
        · rw [List.append_assoc, heq, hnext]
          rfl
      · have hsome := hadapt next List.mem_cons_self hnext
        subst hsome
        obtain ⟨new, tail, hrun, heq⟩ := @ih [] (out ++ printed [] current ++ before) next others
          List.not_mem_nil hshort hothers hlater
        refine ⟨printed [] current ++ before ++ new, tail, ?_, ?_⟩
        · rw [if_neg hnext]
          dsimp only
          rw [hrun, List.append_assoc, List.append_assoc, List.append_assoc]
        · rw [List.append_assoc, heq]
          simp [printed, hnext]
    · have hline' : '\n' ∉ line ++ [c] := by
        simp [hline, Ne.symm hc]
      rw [printLines, if_neg hc]
      refine ih hline' (by simp; omega) ?_ hadapt
      rw [List.append_assoc]
      exact hsplit

/-- Where `AdaptWrap` throws, so does a loop that comes to a line behind the first one. -/
theorem printLines_error (hline : '\n' ∉ line) (hlen : line.length + rest.length < maxLogLen)
    (hsplit : (line ++ rest).splitOn '\n' = current :: others)
    (hothers : ∃ l ∈ others, l ≠ []) :
    ∃ out', printLines maxLogLen none line rest out = .error out' := by
  induction rest generalizing line out current others with
  | nil =>
    rw [List.append_nil, List.splitOn_eq_singleton hline] at hsplit
    cases hsplit
    simp at hothers
  | cons c rest ih =>
    rw [List.length_cons] at hlen
    by_cases hc : c = '\n'
    · subst hc
      obtain ⟨rfl, next, others, rfl, hrest⟩ := splitOn_newline hline hsplit
      rw [printLines_newline (by omega) hrest]
      by_cases hnext : next = []
      · rw [if_pos hnext]
        refine @ih [] _ next others List.not_mem_nil (by simp; omega) hrest ?_
        obtain ⟨l, hl, hne⟩ := hothers
        rcases List.mem_cons.mp hl with rfl | hl
        · exact absurd hnext hne
        · exact ⟨l, hl, hne⟩
      · rw [if_neg hnext]
        exact ⟨_, rfl⟩
    · have hline' : '\n' ∉ line ++ [c] := by
        simp [hline, Ne.symm hc]
      rw [printLines, if_neg hc]
      refine @ih (line ++ [c]) out current others hline' (by simp; omega) ?_ hothers
      rw [List.append_assoc]
      exact hsplit

/-! ### The prefix is not blank -/

theorem mem_padding {n : Nat} {c : Char} (h : c ∈ padding n) : c = ' ' := by
  unfold padding setw List.leftpad at h
  rcases List.mem_append.mp h with h | h
  · exact List.eq_of_mem_replicate h
  · exact List.mem_singleton.mp h

theorem padding_ne_nil (n : Nat) : padding n ≠ [] := by
  unfold padding setw List.leftpad
  simp

/-- No blanks are the prefix of a line. -/
theorem padding_ne_printLogPrefix (host : Host) (content : LogContent) (format : LogFormat)
    (n : Nat) : padding n ≠ printLogPrefix host content format := by
  intro h
  have hblank : ∀ c ∈ printLogPrefix host content format, c = ' ' :=
    fun c hc => mem_padding (h ▸ hc)
  have hdot : '.' ∉ printLogPrefix host content format :=
    fun hc => absurd (hblank '.' hc) (by decide)
  unfold printLogPrefix at h hdot hblank
  cases hformat : format.timeFormat with
  | invalid =>
    rw [hformat] at hblank
    have hmem : 'I' ∈ "Invalid time format\n".toList := by decide
    exact absurd (hblank 'I' hmem) (by decide)
  | time =>
    rw [hformat] at h hdot
    cases hlocal : host.localtime content.tvSec with
    | none =>
      rw [hlocal] at h
      exact padding_ne_nil n h
    | some tl =>
      rw [hlocal] at hdot
      simp at hdot
  | monotonic =>
    rw [hformat] at hdot
    simp at hdot
  | epoch =>
    rw [hformat] at hdot
    simp at hdot

/-! ### The whole log -/

theorem flatMap_printed (before : List Char) (ls : List (List Char)) :
    ls.flatMap (printed before) =
      (ls.filter (· ≠ [])).flatMap fun l => before ++ l ++ ['\n'] := by
  induction ls with
  | nil => rfl
  | cons l ls ih =>
    rw [List.flatMap_cons, ih, List.filter_cons]
    by_cases hl : l = []
    · simp [printed, hl]
    · simp [printed, hl]

variable {host : Host} {content : LogContent} {format : LogFormat}

/-- What is printed before the loop, with the first line. -/
theorem first_append (hsplit : content.log.splitOn '\n' = current :: others) :
    (if content.log = [] ∨ content.log.head? = some '\n' then []
      else printLogPrefix host content format) ++ printed [] current =
        printed (printLogPrefix host content format) current := by
  by_cases hcurrent : current = []
  · rw [if_pos ((head_splitOn_eq_nil_iff hsplit).mp hcurrent)]
    simp [printed, hcurrent]
  · rw [if_neg (mt (head_splitOn_eq_nil_iff hsplit).mpr hcurrent)]
    simp [printed, hcurrent]

/-- What is printed where `AdaptWrap` returns. -/
theorem logPrintWithFormat_eq {before : List Char} (hlen : content.log.length < host.maxLogLen)
    (hsplit : content.log.splitOn '\n' = current :: others)
    (hadapt : ∀ l ∈ others, l ≠ [] → adaptWrap host content format = some before) :
    ∃ body newline, (newline = [] ∨ newline = ['\n']) ∧
      body ++ newline = printed (printLogPrefix host content format) current ++
        others.flatMap (printed before) ∧
      logPrintWithFormat host content format =
        .ok ((if format.colorful then setColor content.level else []) ++ body ++
          (if format.colorful then restoreColor else []) ++ newline) := by
  rw [← first_append hsplit]
  unfold logPrintWithFormat
  generalize (if format.colorful then setColor content.level else []) = color
  generalize (if content.log = [] ∨ content.log.head? = some '\n' then []
      else printLogPrefix host content format) = first
  have hlen' : ([] : List Char).length + content.log.length < host.maxLogLen := by
    rw [List.length_nil]
    omega
  obtain ⟨new, tail, hrun, heq⟩ := @printLines_eq host.maxLogLen _ [] content.log (color ++ first)
    current others before List.not_mem_nil hlen' hsplit hadapt
  refine ⟨first ++ new ++ tail, if tail = [] then [] else ['\n'], ?_, ?_, ?_⟩
  · split
    · exact .inl rfl
    · exact .inr rfl
  · have hline : tail ++ (if tail = [] then [] else ['\n']) = printed [] tail := by
      unfold printed
      split <;> simp_all
    rw [List.append_assoc, hline, List.append_assoc, heq, List.append_assoc]
  · dsimp only
    rw [hrun]
    simp [bind, Except.bind, pure, Except.pure]

theorem lines_eq (hsplit : content.log.splitOn '\n' = current :: others) :
    lines content.log =
      if current = [] then others.filter (· ≠ []) else current :: others.filter (· ≠ []) := by
  rw [lines, hsplit, List.filter_cons]
  by_cases hcurrent : current = []
  · simp [hcurrent]
  · simp [hcurrent]

theorem exists_ne_nil_iff : (∃ l ∈ others, l ≠ []) ↔ others.filter (· ≠ []) ≠ [] := by
  simp [List.filter_eq_nil_iff]

/-- The second escape sequence ends in no newline, so its place is fixed. -/
theorem append_newline_inj {body body' newline newline' : List Char}
    (hn : newline = [] ∨ newline = ['\n']) (hn' : newline' = [] ∨ newline' = ['\n'])
    (h : body ++ (if format.colorful then restoreColor else []) ++ newline =
      body' ++ (if format.colorful then restoreColor else []) ++ newline') :
    body ++ newline = body' ++ newline' := by
  by_cases hcolor : format.colorful = true
  · rw [if_pos hcolor] at h
    have hlast : restoreColor.getLast? = some 'm' := by decide
    rcases hn with rfl | rfl <;> rcases hn' with rfl | rfl
    · simpa using h
    · have := congrArg List.getLast? h
      simp [List.getLast?_append, hlast] at this
    · have := congrArg List.getLast? h
      simp [List.getLast?_append, hlast] at this
    · simpa using h
  · rw [if_neg hcolor] at h
    simpa using h

/-- Where the log is printed as expected, that is what the lines give. -/
theorem Prints.eq (h : Prints host content format) {before : List Char}
    (hlen : content.log.length < host.maxLogLen)
    (hsplit : content.log.splitOn '\n' = current :: others)
    (hadapt : ∀ l ∈ others, l ≠ [] → adaptWrap host content format = some before) :
    expected host content format = printed (printLogPrefix host content format) current ++
      others.flatMap (printed before) := by
  obtain ⟨body, newline, hexpected, hnewline, hrun⟩ := h
  obtain ⟨body', newline', hnewline', heq, hrun'⟩ := logPrintWithFormat_eq hlen hsplit hadapt
  rw [hrun] at hrun'
  have hout := Except.ok.inj hrun'
  simp only [List.append_assoc, List.append_cancel_left_eq] at hout
  simp only [← List.append_assoc] at hout
  rw [← hexpected, ← heq]
  exact append_newline_inj hnewline hnewline' hout

/-- A log is not printed where `AdaptWrap` throws. -/
theorem Prints.isSome (h : Prints host content format)
    (hlen : content.log.length < host.maxLogLen)
    (hsplit : content.log.splitOn '\n' = current :: others) (hothers : ∃ l ∈ others, l ≠ []) :
    (adaptWrap host content format).isSome := by
  obtain ⟨body, newline, -, -, hrun⟩ := h
  cases hadapt : adaptWrap host content format with
  | some before => rfl
  | none =>
    have hlen' : ([] : List Char).length + content.log.length < host.maxLogLen := by
      rw [List.length_nil]
      omega
    obtain ⟨out', herror⟩ := @printLines_error host.maxLogLen [] content.log
      ((if format.colorful then setColor content.level else []) ++
        if content.log = [] ∨ content.log.head? = some '\n' then []
        else printLogPrefix host content format)
      current others List.not_mem_nil hlen' hsplit hothers
    unfold logPrintWithFormat at hrun
    dsimp only at hrun
    rw [hadapt, herror] at hrun
    cases hrun

/-- A text with a line behind its first one is not empty. -/
theorem current_eq_nil_iff (hsplit : content.log.splitOn '\n' = current :: others)
    (hothers : ∃ l ∈ others, l ≠ []) : current = [] ↔ content.log.head? = some '\n' := by
  rw [head_splitOn_eq_nil_iff hsplit, or_iff_right]
  rintro hempty
  rw [hempty, List.splitOn_nil] at hsplit
  cases hsplit
  simp at hothers

theorem adaptWrap_of_not_wrap (hwrap : ¬ format.wrap = true) :
    adaptWrap host content format = some (laterPrefix host content format) := by
  rw [adaptWrap, laterPrefix, if_neg hwrap, if_neg hwrap]

theorem adaptWrap_of_isSome (h : (adaptWrap host content format).isSome) :
    adaptWrap host content format = some (laterPrefix host content format) := by
  by_cases hwrap : format.wrap = true
  · unfold adaptWrap laterPrefix at *
    rw [if_pos hwrap] at h
    rw [if_pos hwrap, if_pos hwrap]
    cases hlength : wideLength content.tag with
    | none => simp [hlength] at h
    | some n => rfl
  · exact adaptWrap_of_not_wrap hwrap

/-- What is expected, line by line. -/
theorem expected_eq (hsplit : content.log.splitOn '\n' = current :: others)
    (h : current = [] → others.filter (· ≠ []) ≠ [] →
      laterPrefix host content format = printLogPrefix host content format) :
    expected host content format = printed (printLogPrefix host content format) current ++
      others.flatMap (printed (laterPrefix host content format)) := by
  rw [expected, lines_eq hsplit, flatMap_printed]
  by_cases hcurrent : current = []
  · rw [if_pos hcurrent]
    cases hothers : others.filter (· ≠ []) with
    | nil => simp [printed, hcurrent]
    | cons l ls =>
      rw [h hcurrent (hothers ▸ List.cons_ne_nil l ls)]
      simp [printed, hcurrent]
  · rw [if_neg hcurrent]
    simp [printed, hcurrent]

/-- A log that is printed as expected wraps only its later lines. -/
theorem Prints.wrapsLater (h : Prints host content format)
    (hlen : content.log.length < host.maxLogLen) : WrapsLater content format := by
  obtain ⟨current, others, hsplit⟩ := List.exists_cons_of_ne_nil
    (List.splitOn_ne_nil '\n' content.log)
  intro hwrap
  have hpadding : laterPrefix host content format = padding ((wideLength content.tag).getD 0) :=
    if_pos hwrap
  constructor
  · by_contra hnot
    rw [not_or, not_not] at hnot
    obtain ⟨hhead, hne⟩ := hnot
    have hcurrent : current = [] := (head_splitOn_eq_nil_iff hsplit).mpr (.inr hhead)
    rw [lines_eq hsplit, if_pos hcurrent] at hne
    have hadapt := adaptWrap_of_isSome (h.isSome hlen hsplit (exists_ne_nil_iff.mpr hne))
    have heq := h.eq hlen hsplit fun _ _ _ => hadapt
    rw [expected, lines_eq hsplit, if_pos hcurrent, flatMap_printed, hcurrent] at heq
    obtain ⟨l, ls, hothers⟩ := List.exists_cons_of_ne_nil hne
    rw [hothers] at heq
    -- The first line stands behind blanks.
    have hfirst : printLogPrefix host content format = laterPrefix host content format := by
      simpa [printed] using heq
    exact padding_ne_printLogPrefix host content format _ (hpadding.symm.trans hfirst.symm)
  · intro htwo
    have hothers : ∃ l ∈ others, l ≠ [] := by
      rw [exists_ne_nil_iff]
      rintro hnil
      rw [lines_eq hsplit, hnil] at htwo
      split at htwo <;> simp at htwo
    have hsome := h.isSome hlen hsplit hothers
    rw [adaptWrap, if_pos hwrap] at hsome
    simpa using hsome

/-- **Each line of a log that is shorter than the buffer is printed once behind its prefix, just in
case with `wrap` the first line is the first of the text, and the tag is valid where it is
measured.** -/
theorem prints_iff (hlen : content.log.length < host.maxLogLen) :
    Prints host content format ↔ WrapsLater content format := by
  refine ⟨fun h => h.wrapsLater hlen, fun h => ?_⟩
  obtain ⟨current, others, hsplit⟩ := List.exists_cons_of_ne_nil
    (List.splitOn_ne_nil '\n' content.log)
  have hlines := lines_eq hsplit
  have hfirst : format.wrap = true → current = [] → ¬ ∃ l ∈ others, l ≠ [] := by
    intro hwrap hcurrent hothers
    have hhead := (current_eq_nil_iff hsplit hothers).mp hcurrent
    rcases (h hwrap).1 with hne | hnil
    · exact hne hhead
    · rw [hlines, if_pos hcurrent] at hnil
      exact exists_ne_nil_iff.mp hothers hnil
  have hadapt : ∀ l ∈ others, l ≠ [] →
      adaptWrap host content format = some (laterPrefix host content format) := by
    intro l hl hne
    by_cases hwrap : format.wrap = true
    · have hcurrent : current ≠ [] := fun hcurrent => hfirst hwrap hcurrent ⟨l, hl, hne⟩
      have hothers := exists_ne_nil_iff.mp ⟨l, hl, hne⟩
      refine adaptWrap_of_isSome ?_
      rw [adaptWrap, if_pos hwrap, Option.isSome_map]
      refine (h hwrap).2 ?_
      rw [hlines, if_neg hcurrent, List.length_cons]
      have := List.length_pos_iff.mpr hothers
      omega
    · exact adaptWrap_of_not_wrap hwrap
  obtain ⟨body, newline, hnewline, heq, hrun⟩ := logPrintWithFormat_eq hlen hsplit hadapt
  refine ⟨body, newline, heq.trans (expected_eq hsplit ?_).symm, hnewline, hrun⟩
  intro hcurrent hothers
  have hwrap : ¬ format.wrap = true :=
    fun hwrap => hfirst hwrap hcurrent (exists_ne_nil_iff.mpr hothers)
  exact if_neg hwrap

/-! ### An empty first line -/

instance : Decidable (WrapsLater content format) := inferInstanceAs (Decidable (_ → _ ∧ _))

/-- The fifth of March, for each time. -/
def sampleHost : Host where
  localtime _ := some ⟨"UTC".toList, 126, 2, 5, 7, 8, 9⟩
  logLevel2ShortStr _ := ['I']
  maxLogLen := 1024

def sampleLog (log : String) : LogContent where
  level := .info
  type := .app
  pid := 17
  tid := 18
  domain := 0x1234
  tvSec := 0
  tvNsec := 4000000
  monoSec := 0
  tag := ['T']
  log := log.toList

theorem prints_iff_three_lines :
    logPrintWithFormat sampleHost (sampleLog "ab\n\ncd") { wrap := true } =
        .ok ("03-05 07:08:09.004    17    18 I A01234/T: ab\n" ++
          "                                           cd\n").toList ∧
      Prints sampleHost (sampleLog "ab\n\ncd") { wrap := true } :=
  ⟨by decide +kernel, (prints_iff (by decide)).mpr (by decide +kernel)⟩

/-- A text that starts with a newline: its first line stands behind blanks. -/
theorem first_line_wrapped :
    logPrintWithFormat sampleHost (sampleLog "\nab") { wrap := true } =
        .ok "                                           ab\n".toList ∧
      ¬ Prints sampleHost (sampleLog "\nab") { wrap := true } := by
  have hrun : logPrintWithFormat sampleHost (sampleLog "\nab") { wrap := true } =
      .ok "                                           ab\n".toList := by decide +kernel
  refine ⟨hrun, ?_⟩
  rintro ⟨body, newline, hexpected, -, hprinted⟩
  rw [hrun] at hprinted
  have hout : "                                           ab\n".toList = body ++ newline := by
    simpa using Except.ok.inj hprinted
  rw [hexpected] at hout
  revert hout
  decide +kernel

end Hilog
