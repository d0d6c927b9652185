import OpenHarmonyMac.Infra.CString
import OpenHarmonyMac.Infra.Separator

/-!
# The maps of a process

The tools read `/proc/<pid>/maps`, which has a line for each range of addresses: where it starts
and ends, some columns, and the name of what is mapped, which is a path or another name. They read
the range with `sscanf`.

* `sscanfRange` — `sscanf(p, "%lx-%lx", &a, &b)`
* `Line` — a line of the maps
* `sscanfRange_text` — the range of a line is read
-/

namespace Maps

open Infra

abbrev Text := List Char

/-- What is behind the first character that the tools look for is shorter. -/
theorem length_lt_of_dropWhile {p : Char → Bool} {s behind : Text} {c : Char}
    (h : s.dropWhile p = c :: behind) : behind.length < s.length := by
  have hle := (List.dropWhile_suffix p (l := s)).length_le
  rw [h, List.length_cons] at hle
  omega

/-! ## Reading a range -/

def isHex (c : Char) : Bool :=
  c.isDigit || ('a' ≤ c && c ≤ 'f') || ('A' ≤ c && c ≤ 'F')

def hexValue (c : Char) : Nat :=
  if c.isDigit then c.toNat - 48 else if 'a' ≤ c then c.toNat - 87 else c.toNat - 55

def readHex (digits : Text) : Nat := digits.foldl (fun n c => 16 * n + hexValue c) 0

/-- The `0x` that may stand in front of the digits. -/
def dropZeroX : Text → Text
  | '0' :: 'x' :: s => s
  | '0' :: 'X' :: s => s
  | s => s

/-- The digits at the start, as an `unsigned long`: the largest one, if they are too many. -/
def scanDigits (negative : Bool) (s : Text) : Option (Nat × Text) :=
  if (dropZeroX s).takeWhile isHex = [] then none
  else
    let n := readHex ((dropZeroX s).takeWhile isHex)
    some (if 2 ^ 64 ≤ n then 2 ^ 64 - 1 else if negative then (2 ^ 64 - n) % 2 ^ 64 else n,
      (dropZeroX s).dropWhile isHex)

/-- `%lx` -/
def scanHex (s : Text) : Option (Nat × Text) :=
  match s.dropWhile isSpace with
  | '-' :: t => scanDigits true t
  | '+' :: t => scanDigits false t
  | t => scanDigits false t

/-- `sscanf` with the format `%lx-%lx`, where it reads both numbers. -/
def sscanfRange (s : Text) : Option (Nat × Nat) := do
  let (a, rest) ← scanHex s
  match rest with
  | '-' :: rest => do
    let (b, _) ← scanHex rest
    return (a, b)
  | _ => none

/-- The range that is read holds the address. -/
def inRange (address : Nat) (s : Text) : Bool :=
  match sscanfRange s with
  | some (a, b) => a ≤ address && address < b
  | none => false

/-! ## Lines -/

/-- An address as it is printed. -/
structure Address where
  digits : Text
  ne_nil : digits ≠ []
  isHex_of_mem : ∀ c ∈ digits, isHex c = true
  lt : readHex digits < 2 ^ 64

def Address.value (a : Address) : Nat := readHex a.digits

/-- A line: the range, the columns behind it up to the name, which have no slash, and the name. -/
structure Line where
  start : Address
  stop : Address
  columns : Text
  name : Text
  blank : columns.head? = some ' '
  no_slash : '/' ∉ columns
  one_line : ∀ c ∈ columns ++ name, c ≠ '\n' ∧ c ≠ Char.ofNat 0

def Line.text (l : Line) : Text := l.start.digits ++ '-' :: (l.stop.digits ++ (l.columns ++ l.name))

/-- An address with these digits. -/
def Address.ofDigits (digits : String)
    (h : digits.toList ≠ [] ∧ digits.toList.all isHex = true ∧ readHex digits.toList < 2 ^ 64) :
    Address :=
  ⟨digits.toList, h.1, List.all_eq_true.mp h.2.1, h.2.2⟩

/-- A line of a mapped file. -/
def Line.ofFile (start stop : Address) (columns path : String)
    (h : columns.toList.head? = some ' ' ∧ '/' ∉ columns.toList ∧
      (columns.toList ++ path.toList).all (fun c => c ≠ '\n' && c ≠ Char.ofNat 0) = true) : Line :=
  ⟨start, stop, columns.toList, path.toList, h.1, h.2.1,
    fun c hc => by simpa using List.all_eq_true.mp h.2.2 c hc⟩

/-- The maps of a host of drivers, which has its own file and the C library. -/
def devhostMaps : List Line := [
  .ofFile (.ofDigits "5579a00000" (by decide)) (.ofDigits "5579a01000" (by decide))
    " r--p 00000000 fe:00 1234                           " "/vendor/bin/hdf_devhost" (by decide),
  .ofFile (.ofDigits "5579a01000" (by decide)) (.ofDigits "5579a05000" (by decide))
    " r-xp 00001000 fe:00 1234                           " "/vendor/bin/hdf_devhost" (by decide),
  .ofFile (.ofDigits "5579a05000" (by decide)) (.ofDigits "5579a06000" (by decide))
    " rw-p 00005000 fe:00 1234                           " "/vendor/bin/hdf_devhost" (by decide),
  .ofFile (.ofDigits "7fb2c40000" (by decide)) (.ofDigits "7fb2c52000" (by decide))
    " r--p 00000000 fe:00 987                            " "/system/lib/ld-musl-aarch64.so.1"
    (by decide),
  .ofFile (.ofDigits "7fb2c52000" (by decide)) (.ofDigits "7fb2cd8000" (by decide))
    " r-xp 00012000 fe:00 987                            " "/system/lib/ld-musl-aarch64.so.1"
    (by decide),
  .ofFile (.ofDigits "7fb2cd8000" (by decide)) (.ofDigits "7fb2cda000" (by decide))
    " rw-p 00098000 fe:00 987                            " "/system/lib/ld-musl-aarch64.so.1"
    (by decide)]

/-- The range of the line holds the address. -/
def Line.Contains (l : Line) (address : Nat) : Prop :=
  l.start.value ≤ address ∧ address < l.stop.value

instance (l : Line) (address : Nat) : Decidable (l.Contains address) :=
  inferInstanceAs (Decidable (_ ∧ _))

/-- The lines as the kernel writes them. -/
def render (lines : List Line) : Text := lines.flatMap fun l => l.text ++ ['\n']

section Read

variable {a : Address} {l : Line} {rest : Text} {c : Char}

theorem isSpace_of_isHex (h : isHex c = true) : isSpace c = false := by
  have hletter (d : Char) (hd : 32 < d.toNat) (hle : d ≤ c) : isSpace c = false := by
    have hle : d.toNat ≤ c.toNat := hle
    have hne : c ≠ ' ' := by
      rintro rfl
      exact absurd (Nat.lt_of_lt_of_le hd hle) (by decide)
    simp [isSpace, hne]
    omega
  simp only [isHex, Bool.or_eq_true, Bool.and_eq_true, decide_eq_true_eq] at h
  rcases h with (hdigit | ⟨hle, -⟩) | ⟨hle, -⟩
  · exact isSpace_of_isDigit hdigit
  · exact hletter 'a' (by decide) hle
  · exact hletter 'A' (by decide) hle

theorem Address.exists_cons (a : Address) : ∃ c cs, a.digits = c :: cs ∧ isHex c = true := by
  obtain ⟨c, cs, h⟩ := List.exists_cons_of_ne_nil a.ne_nil
  exact ⟨c, cs, h, a.isHex_of_mem c (h ▸ List.mem_cons_self)⟩

/-- An address has no `0x`. -/
theorem dropZeroX_eq_self (a : Address) (hrest : ∀ c ∈ rest.head?, c ≠ 'x' ∧ c ≠ 'X') :
    dropZeroX (a.digits ++ rest) = a.digits ++ rest := by
  have hnot (x : Char) (hx : isHex x = false) (hhead : ∀ c ∈ rest.head?, c ≠ x) (s : Text) :
      a.digits ++ rest ≠ '0' :: x :: s := by
    obtain ⟨c, cs, hdigits, -⟩ := a.exists_cons
    rw [hdigits, List.cons_append]
    intro heq
    have htail := (List.cons.inj heq).2
    cases cs with
    | nil =>
      rw [List.nil_append] at htail
      exact hhead x (by simp [htail]) rfl
    | cons d ds =>
      have hd := a.isHex_of_mem d (by simp [hdigits])
      rw [(List.cons.inj htail).1, hx] at hd
      cases hd
  unfold dropZeroX
  split
  · next s heq => exact absurd heq (hnot 'x' (by decide) (fun c hc => (hrest c hc).1) s)
  · next s heq => exact absurd heq (hnot 'X' (by decide) (fun c hc => (hrest c hc).2) s)
  · rfl

/-- An address is read, up to a character that is no digit. -/
theorem scanHex_append (a : Address)
    (hrest : ∀ c ∈ rest.head?, isHex c = false ∧ c ≠ 'x' ∧ c ≠ 'X') :
    scanHex (a.digits ++ rest) = some (a.value, rest) := by
  have hdigits : scanDigits false (a.digits ++ rest) = some (a.value, rest) := by
    have htake : rest.takeWhile isHex = [] ∧ rest.dropWhile isHex = rest := by
      cases rest with
      | nil => exact ⟨rfl, rfl⟩
      | cons c cs =>
        have hc := (hrest c rfl).1
        simp [hc]
    rw [scanDigits, dropZeroX_eq_self a fun c hc => (hrest c hc).2,
      List.takeWhile_append_of_pos a.isHex_of_mem, List.dropWhile_append_of_pos a.isHex_of_mem,
      htake.1, htake.2, List.append_nil, if_neg a.ne_nil]
    dsimp only
    rw [if_neg (Nat.not_le.mpr a.lt)]
    rfl
  obtain ⟨c, cs, hcons, hc⟩ := a.exists_cons
  rw [hcons, List.cons_append] at hdigits ⊢
  rw [scanHex, List.dropWhile_cons_of_neg (by simp [isSpace_of_isHex hc])]
  split
  · next t heq =>
    rw [(List.cons.inj heq).1] at hc
    exact absurd hc (by decide)
  · next t heq =>
    rw [(List.cons.inj heq).1] at hc
    exact absurd hc (by decide)
  · exact hdigits

/-- **The range of a line is read.** -/
theorem sscanfRange_text (l : Line) :
    sscanfRange l.text = some (l.start.value, l.stop.value) := by
  have hcolumns : ∀ c ∈ (l.columns ++ l.name).head?, isHex c = false ∧ c ≠ 'x' ∧ c ≠ 'X' := by
    intro c hc
    rw [List.head?_append, l.blank] at hc
    cases hc
    decide
  rw [sscanfRange, Line.text, scanHex_append l.start (by simp; decide)]
  simp only [Option.bind_eq_bind, Option.bind_some, scanHex_append l.stop hcolumns]
  rfl

theorem inRange_text (l : Line) (address : Nat) :
    inRange address l.text = decide (l.Contains address) := by
  rw [inRange, sscanfRange_text]
  exact (Bool.decide_and ..).symm

/-- A line has neither a newline nor a NUL. -/
theorem Line.text_ne (l : Line) : ∀ c ∈ l.text, c ≠ '\n' ∧ c ≠ Char.ofNat 0 := by
  have hhex : ∀ a : Address, ∀ c ∈ a.digits, c ≠ '\n' ∧ c ≠ Char.ofNat 0 := by
    intro a c hc
    have hc := a.isHex_of_mem c hc
    constructor
    all_goals
      rintro rfl
      exact absurd hc (by decide)
  intro c hc
  simp only [Line.text, List.mem_append, List.mem_cons] at hc
  rcases hc with hc | rfl | hc | hc
  · exact hhex _ c hc
  · decide
  · exact hhex _ c hc
  · exact l.one_line c (List.mem_append.mpr hc)

end Read

end Maps
