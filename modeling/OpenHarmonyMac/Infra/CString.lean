import Mathlib.Data.List.TakeWhile
import Mathlib.Tactic.Ring

/-!
# C strings and the numbers in them

Strings are lists of characters without the terminating NUL. The formats `%u` and `%d` write
decimal digits, and `atoi` reads them back: blanks, a sign, digits, and whatever comes behind is
ignored.

* `atoi_formatInt` — what `%d` writes, `atoi` reads
* `toUInt32_atoi_formatNat` — what `%u` writes, `atoi` reads as an unsigned number
* `strtok_eq_some_iff` — the tokens of a string
-/

namespace Infra

/-- The text up to the first NUL: what C sees of a buffer, and what `execv` passes on. -/
def cString (s : List Char) : List Char := s.takeWhile (· != Char.ofNat 0)

@[simp] theorem cString_cString (s : List Char) : cString (cString s) = cString s :=
  List.takeWhile_idem

/-- A text without a NUL, in a longer buffer. -/
theorem cString_append_nul {s : List Char} (h : ∀ c ∈ s, c ≠ Char.ofNat 0) (rest : List Char) :
    cString (s ++ Char.ofNat 0 :: rest) = s := by
  have hall : ∀ c ∈ s, (c != Char.ofNat 0) = true := fun c hc => bne_iff_ne.mpr (h c hc)
  rw [cString, List.takeWhile_append_of_pos hall, List.takeWhile_cons_of_neg (by decide),
    List.append_nil]

/-! ## Writing -/

/-- `%u` -/
def formatNat (n : Nat) : List Char := Nat.toDigits 10 n

/-- `%d` -/
def formatInt (i : Int) : List Char :=
  if i < 0 then '-' :: formatNat i.natAbs else formatNat i.natAbs

/-- `sprintf_s` into a buffer of `size` bytes: nothing is written when the text and its NUL do
not fit. -/
def sprintfS (size : Nat) (text : List Char) : Option (List Char) :=
  if text.length < size then some text else none

theorem sprintfS_eq_some {size : Nat} {text : List Char} (h : text.length < size) :
    sprintfS size text = some text := if_pos h

theorem eq_of_sprintfS {size : Nat} {text out : List Char} (h : sprintfS size text = some out) :
    out = text := by
  unfold sprintfS at h
  split at h
  · exact (Option.some.inj h).symm
  · cases h

/-- A number below `10 ^ k` takes at most `k` digits. -/
theorem length_formatNat_le {n k : Nat} (hk : 0 < k) (h : n < 10 ^ k) :
    (formatNat n).length ≤ k :=
  (Nat.length_toDigits_le_iff (by decide) hk).mpr h

theorem isDigit_of_mem_formatNat {n : Nat} {c : Char} (h : c ∈ formatNat n) : c.isDigit = true :=
  Nat.isDigit_of_mem_toDigits (by decide) (by decide) h

theorem ne_nul_of_mem_formatInt {i : Int} {c : Char} (h : c ∈ formatInt i) :
    c ≠ Char.ofNat 0 := by
  have hdigit : c ∈ formatNat i.natAbs → c ≠ Char.ofNat 0 := by
    rintro hc rfl
    exact absurd (isDigit_of_mem_formatNat hc) (by decide)
  unfold formatInt at h
  split at h
  · rcases List.mem_cons.mp h with rfl | hc
    · decide
    · exact hdigit hc
  · exact hdigit h

/-! ## Reading -/

/-- `isspace` -/
def isSpace (c : Char) : Bool := c == ' ' || (9 ≤ c.toNat && c.toNat ≤ 13)

/-- The number that the digits at the start of `s` spell. -/
def readNat (s : List Char) : Nat := Nat.ofDigitChars 10 (s.takeWhile Char.isDigit) 0

/-- The number at the start of `s`, behind blanks and a sign. -/
def readInt (s : List Char) : Int :=
  match s.dropWhile isSpace with
  | '-' :: t => -(readNat t : Int)
  | '+' :: t => readNat t
  | t => readNat t

/-- `atoi`: the number reduced to an `int` of 32 bits. -/
def atoi (s : List Char) : Int := Int.bmod (readInt s) (2 ^ 32)

/-- The conversion of an `int` to `uint32_t`. -/
def toUInt32 (i : Int) : UInt32 := UInt32.ofNat (i % 2 ^ 32).toNat

/-! ## Round trips -/

/-- Reading stops at the first character that is no digit. -/
def StopsDigits (rest : List Char) : Prop := ∀ c ∈ rest.head?, c.isDigit = false

theorem readNat_formatNat (n : Nat) {rest : List Char} (h : StopsDigits rest) :
    readNat (formatNat n ++ rest) = n := by
  have htake : (formatNat n ++ rest).takeWhile Char.isDigit = formatNat n := by
    rw [List.takeWhile_append_of_pos (fun c hc => isDigit_of_mem_formatNat hc)]
    cases rest with
    | nil => simp
    | cons c cs => simp [h c (by simp)]
  rw [readNat, htake, formatNat, Nat.ofDigitChars_ten_toDigits]

theorem isSpace_of_isDigit {c : Char} (h : c.isDigit = true) : isSpace c = false := by
  rw [Char.isDigit_iff_toNat] at h
  have h0 : 48 ≤ c.toNat := h.1
  have hne : c ≠ ' ' := by
    rintro rfl
    exact absurd h0 (by decide)
  simp [isSpace, hne]
  omega

/-- Digits start with neither blank nor sign. -/
theorem readInt_of_isDigit {c : Char} (hc : c.isDigit = true) (cs : List Char) :
    readInt (c :: cs) = readNat (c :: cs) := by
  unfold readInt
  rw [List.dropWhile_cons_of_neg (by rw [isSpace_of_isDigit hc]; decide)]
  split
  · next heq =>
    cases heq
    exact absurd hc (by decide)
  · next heq =>
    cases heq
    exact absurd hc (by decide)
  · rfl

theorem formatNat_eq_cons (n : Nat) : ∃ c cs, formatNat n = c :: cs ∧ c.isDigit = true := by
  cases h : formatNat n with
  | nil => exact absurd h Nat.toDigits_ne_nil
  | cons c cs => exact ⟨c, cs, rfl, isDigit_of_mem_formatNat (h ▸ List.mem_cons_self)⟩

theorem readInt_formatNat (n : Nat) {rest : List Char} (h : StopsDigits rest) :
    readInt (formatNat n ++ rest) = n := by
  obtain ⟨c, cs, he, hc⟩ := formatNat_eq_cons n
  have hread := readNat_formatNat n h
  rw [he, List.cons_append] at hread ⊢
  rw [readInt_of_isDigit hc, hread]

theorem readInt_formatInt (i : Int) {rest : List Char} (h : StopsDigits rest) :
    readInt (formatInt i ++ rest) = i := by
  unfold formatInt
  split
  · next hneg =>
    rw [List.cons_append]
    unfold readInt
    rw [List.dropWhile_cons_of_neg (by decide)]
    simp only [readNat_formatNat _ h]
    omega
  · next hpos =>
    rw [readInt_formatNat _ h]
    omega

/-- Blanks in front are skipped. -/
theorem readInt_blank (s : List Char) : readInt (' ' :: s) = readInt s := by
  unfold readInt
  rw [List.dropWhile_cons_of_pos (by decide)]

theorem stopsDigits_blank (s : List Char) : StopsDigits (' ' :: s) := by
  intro c hc
  cases hc
  decide

/-- **What `%d` writes between blanks, `atoi` reads.** -/
theorem atoi_formatInt {i : Int} (hlo : -2 ^ 31 ≤ i) (hhi : i < 2 ^ 31) :
    atoi (' ' :: (formatInt i ++ [' '])) = i := by
  rw [atoi, readInt_blank, readInt_formatInt i (stopsDigits_blank [])]
  exact Int.bmod_eq_of_le (by omega) (by omega)

/-- **What `%u` writes between blanks, `atoi` reads**, up to the reduction of an `int`. -/
theorem toUInt32_atoi_formatNat (n : UInt32) :
    toUInt32 (atoi (' ' :: (formatNat n.toNat ++ [' ']))) = n := by
  rw [toUInt32, atoi, readInt_blank, readInt_formatNat _ (stopsDigits_blank [])]
  have hmod : Int.bmod (n.toNat : Int) (2 ^ 32) % 2 ^ 32 = n.toNat := by
    have hlt := n.toNat_lt
    rw [show ((2 : Int) ^ 32) = ((2 ^ 32 : Nat) : Int) from rfl, Int.bmod_emod]
    omega
  rw [hmod]
  simp

/-- The number that digits spell. -/
theorem readInt_of_digits {digits : List Char} (hne : digits ≠ [])
    (h : ∀ c ∈ digits, c.isDigit = true) : readInt digits = Nat.ofDigitChars 10 digits 0 := by
  obtain ⟨c, cs, rfl⟩ := List.exists_cons_of_ne_nil hne
  rw [readInt_of_isDigit (h c (by simp)), readNat, List.takeWhile_eq_self_iff.mpr h]

/-- `atoi` of digits that do not overflow. -/
theorem atoi_of_digits {digits : List Char} (hne : digits ≠ [])
    (h : ∀ c ∈ digits, c.isDigit = true) (hlt : Nat.ofDigitChars 10 digits 0 < 2 ^ 31) :
    atoi digits = Nat.ofDigitChars 10 digits 0 := by
  rw [atoi, readInt_of_digits hne h]
  exact Int.bmod_eq_of_le (by omega) (by omega)

/-! ## Tokens -/

/-- `strtok_r` with one delimiter: the first token, and the text behind the delimiter that ends
it, `none` when the string ends there. -/
def strtok (delim : Char) (s : List Char) : Option (List Char × Option (List Char)) :=
  match s.dropWhile (· == delim) with
  | [] => none
  | t => some (t.takeWhile (· != delim), (t.dropWhile (· != delim)).tail?)

/-- A token that another delimiter ends: delimiters, the token and the rest of the string. -/
structure Tokenized (delim : Char) (s seps tok rest : List Char) : Prop where
  eq : s = seps ++ (tok ++ delim :: rest)
  seps_eq : ∀ c ∈ seps, c = delim
  tok_ne : ∀ c ∈ tok, c ≠ delim
  ne_nil : tok ≠ []

theorem strtok_of_tokenized {delim : Char} {s seps tok rest : List Char}
    (h : Tokenized delim s seps tok rest) : strtok delim s = some (tok, some rest) := by
  obtain ⟨rfl, hseps, htok, hne⟩ := h
  obtain ⟨c, cs, rfl⟩ := List.exists_cons_of_ne_nil hne
  have hc : (c == delim) = false := beq_false_of_ne (htok c (by simp))
  have hall : ∀ a ∈ c :: cs, (a != delim) = true := fun a ha => bne_iff_ne.mpr (htok a ha)
  rw [strtok, List.dropWhile_append_of_pos fun a ha => beq_iff_eq.mpr (hseps a ha),
    List.cons_append, List.dropWhile_cons_of_neg (by simp [hc])]
  dsimp only
  rw [← List.cons_append, List.takeWhile_append_of_pos hall, List.dropWhile_append_of_pos hall]
  simp

/-- A string that begins with another character than the delimiter, cut at the delimiter. -/
theorem tokenized_of_strtok {delim : Char} {s tok rest : List Char}
    (h : strtok delim s = some (tok, some rest)) :
    Tokenized delim s (s.takeWhile (· == delim)) tok rest := by
  unfold strtok at h
  have hsplit := (List.takeWhile_append_dropWhile (p := (· == delim)) (l := s)).symm
  cases ht : s.dropWhile (· == delim) with
  | nil => simp [ht] at h
  | cons c cs =>
    simp only [ht, Option.some.injEq, Prod.mk.injEq] at h
    obtain ⟨htok, hrest⟩ := h
    have hc : c ≠ delim := by
      have hhead := List.head?_dropWhile_not (· == delim) s
      rw [ht] at hhead
      simpa using hhead
    have hcut := (List.takeWhile_append_dropWhile (p := (· != delim)) (l := c :: cs)).symm
    rw [htok] at hcut
    cases hd : (c :: cs).dropWhile (· != delim) with
    | nil => simp [hd] at hrest
    | cons a as =>
      rw [hd, List.tail?_cons, Option.some.injEq] at hrest
      have ha : a = delim := by
        have hhead := List.head?_dropWhile_not (· != delim) (c :: cs)
        rw [hd] at hhead
        simpa using hhead
      rw [hd, hrest, ha] at hcut
      refine ⟨by rw [← hcut, ← ht]; exact hsplit, ?_, ?_, ?_⟩
      · intro a ha
        simpa using List.mem_takeWhile_imp ha
      · rw [← htok]
        intro a ha
        simpa using List.mem_takeWhile_imp ha
      · rw [← htok, List.takeWhile_cons_of_pos (by simp [hc])]
        exact List.cons_ne_nil _ _

/-- **What `strtok_r` finds** in front of a second delimiter. -/
theorem strtok_eq_some_iff {delim : Char} {s tok rest : List Char} :
    strtok delim s = some (tok, some rest) ↔ ∃ seps, Tokenized delim s seps tok rest := by
  constructor
  · exact fun h => ⟨_, tokenized_of_strtok h⟩
  · rintro ⟨seps, h⟩
    exact strtok_of_tokenized h

/-! ## Parts -/

/-- `strstr`: what stands in front of the first occurrence of `needle`, and what behind it. -/
def strstr (needle : List Char) : List Char → Option (List Char × List Char)
  | [] => if needle = [] then some ([], []) else none
  | c :: cs =>
    if needle.isPrefixOf (c :: cs) then some ([], (c :: cs).drop needle.length)
    else (strstr needle cs).map fun p => (c :: p.1, p.2)

theorem eq_append_of_strstr {needle : List Char} {s before behind : List Char}
    (h : strstr needle s = some (before, behind)) : s = before ++ (needle ++ behind) := by
  induction s generalizing before with
  | nil =>
    rw [strstr] at h
    split at h
    · next hn =>
      cases h
      rw [hn]
      rfl
    · cases h
  | cons c cs ih =>
    rw [strstr] at h
    split at h
    · next hpre =>
      cases h
      obtain ⟨t, ht⟩ := List.isPrefixOf_iff_prefix.mp hpre
      rw [← ht, List.drop_left, List.nil_append]
    · obtain ⟨p, hp, heq⟩ := Option.map_eq_some_iff.mp h
      cases heq
      rw [ih hp, List.cons_append]

/-- An occurrence is found. -/
theorem strstr_isSome {needle s : List Char} (h : needle <:+: s) : (strstr needle s).isSome := by
  induction s with
  | nil =>
    rw [strstr, if_pos (List.infix_nil.mp h)]
    rfl
  | cons c cs ih =>
    rw [strstr]
    split
    · rfl
    · next hpre =>
      rw [Option.isSome_map]
      refine ih ((List.infix_cons_iff.mp h).resolve_left ?_)
      exact fun hp => hpre (List.isPrefixOf_iff_prefix.mpr hp)

end Infra
