import Mathlib.Data.List.Basic

/-!
# The format of the EGL logger

`_eglLog` takes a format from which `sanitize_fmt` drops what stands between `%{` and `}`, and
which it copies to a buffer. A format has no NUL.

* `sanitizeFmt` — what is written in front of the NUL
* `sanitized` — the whole format without what is dropped
* `sanitizeFmt_fits_iff` — when the copy stays in the buffer
-/

namespace EglLog

/-- What comes behind a `%{`, if a `}` follows. -/
def behindTag : List Char → Option (List Char)
  | '%' :: '{' :: rest => if '}' ∈ rest then some (rest.dropWhile (· != '}')).tail else none
  | _ => none

theorem behindTag_length {src rest : List Char} (h : behindTag src = some rest) :
    rest.length < src.length := by
  unfold behindTag at h
  split at h
  · split at h
    · cases h
      have hle := (List.dropWhile_suffix (· != '}') (l := ‹List Char›)).length_le
      simp only [List.length_cons, List.length_tail]
      omega
    · cases h
  · cases h

/-- `sanitize_fmt` without the NUL at the end -/
def sanitizeFmt (src : List Char) (dstsz : Nat) : List Char :=
  if 1 < dstsz then
    match _h : behindTag src with
    | some rest => '%' :: sanitizeFmt rest dstsz
    | none =>
      match src with
      | [] => []
      | c :: cs => c :: sanitizeFmt cs (dstsz - 1)
  else []
termination_by src.length
decreasing_by
  · exact behindTag_length ‹_›
  · exact Nat.lt_succ_self _

/-- The format with each `%{...}` as a `%`. -/
def sanitized (src : List Char) : List Char :=
  match _h : behindTag src with
  | some rest => '%' :: sanitized rest
  | none =>
    match src with
    | [] => []
    | c :: cs => c :: sanitized cs
termination_by src.length
decreasing_by
  · exact behindTag_length ‹_›
  · exact Nat.lt_succ_self _

/-- The NUL is in the buffer, and nothing is missing in front of it if it need not be. -/
structure Fits (src : List Char) (dstsz : Nat) : Prop where
  bound : (sanitizeFmt src dstsz).length + 1 ≤ dstsz
  whole : (sanitized src).length + 1 ≤ dstsz → sanitizeFmt src dstsz = sanitized src

section Copy

variable {src rest cs : List Char} {c : Char} {dstsz : Nat}

theorem sanitizeFmt_of_le (h : dstsz ≤ 1) : sanitizeFmt src dstsz = [] := by
  rw [sanitizeFmt, if_neg (by omega)]

theorem sanitizeFmt_tag (hsize : 1 < dstsz) (h : behindTag src = some rest) :
    sanitizeFmt src dstsz = '%' :: sanitizeFmt rest dstsz := by
  rw [sanitizeFmt, if_pos hsize]
  split
  · next rest' h' => rw [Option.some.inj (h.symm.trans h')]
  · next h' => cases h.symm.trans h'

theorem sanitizeFmt_cons (hsize : 1 < dstsz) (h : behindTag (c :: cs) = none) :
    sanitizeFmt (c :: cs) dstsz = c :: sanitizeFmt cs (dstsz - 1) := by
  rw [sanitizeFmt, if_pos hsize]
  split
  · next rest' h' => cases h.symm.trans h'
  · rfl

theorem sanitizeFmt_nil (dstsz : Nat) : sanitizeFmt [] dstsz = [] := by
  rw [sanitizeFmt]
  split <;> rfl

theorem sanitized_tag (h : behindTag src = some rest) : sanitized src = '%' :: sanitized rest := by
  rw [sanitized]
  split
  · next rest' h' => rw [Option.some.inj (h.symm.trans h')]
  · next h' => cases h.symm.trans h'

theorem sanitized_cons (h : behindTag (c :: cs) = none) :
    sanitized (c :: cs) = c :: sanitized cs := by
  rw [sanitized]
  split
  · next rest' h' => cases h.symm.trans h'
  · rfl

theorem sanitized_nil : sanitized [] = [] := by
  rw [sanitized]
  rfl

end Copy

/-! ## The bound -/

section Bound

variable {src : List Char} {dstsz : Nat}

/-- A format that fits without what is dropped is copied whole. -/
theorem sanitizeFmt_eq_sanitized (h : (sanitized src).length < dstsz) :
    sanitizeFmt src dstsz = sanitized src := by
  fun_induction sanitized src generalizing dstsz with
  | case1 src rest htag ih =>
    simp only [List.length_cons] at h
    rw [sanitizeFmt_tag (by omega) htag, ih (by omega)]
  | case2 => exact sanitizeFmt_nil dstsz
  | case3 c cs htag ih =>
    simp only [List.length_cons] at h
    rw [sanitizeFmt_cons (by omega) htag, ih (by omega)]

/-- The copy goes on to the end of the format or of the buffer. -/
theorem le_length_sanitizeFmt (src : List Char) (dstsz : Nat) :
    min dstsz ((sanitized src).length + 1) ≤ (sanitizeFmt src dstsz).length + 1 := by
  fun_induction sanitized src generalizing dstsz with
  | case1 src rest htag ih =>
    by_cases hsize : 1 < dstsz
    · rw [sanitizeFmt_tag hsize htag]
      have hrest := ih dstsz
      simp only [List.length_cons]
      omega
    · omega
  | case2 =>
    rw [sanitizeFmt_nil]
    exact Nat.min_le_right _ _
  | case3 c cs htag ih =>
    by_cases hsize : 1 < dstsz
    · rw [sanitizeFmt_cons hsize htag]
      have hrest := ih (dstsz - 1)
      simp only [List.length_cons]
      omega
    · omega

/-- A `%{...}` takes a byte that is not counted. -/
theorem length_sanitizeFmt_of_tag (hlong : dstsz ≤ (sanitized src).length)
    (htag : ∃ i < dstsz - 1, (behindTag (src.drop i)).isSome) :
    dstsz ≤ (sanitizeFmt src dstsz).length := by
  obtain ⟨i, hi, htag⟩ := htag
  induction i generalizing src dstsz with
  | zero =>
    obtain ⟨rest, hrest⟩ := Option.isSome_iff_exists.mp htag
    rw [List.drop_zero] at hrest
    rw [sanitizeFmt_tag (by omega) hrest]
    rw [sanitized_tag hrest, List.length_cons] at hlong
    have hle := le_length_sanitizeFmt rest dstsz
    rw [List.length_cons]
    omega
  | succ i ih =>
    cases hfirst : behindTag src with
    | some rest =>
      -- the first one counts
      rw [sanitizeFmt_tag (by omega) hfirst]
      rw [sanitized_tag hfirst, List.length_cons] at hlong
      have hle := le_length_sanitizeFmt rest dstsz
      rw [List.length_cons]
      omega
    | none =>
      cases src with
      | nil => simp [sanitized_nil] at hlong; omega
      | cons c cs =>
        rw [sanitizeFmt_cons (by omega) hfirst, List.length_cons]
        rw [sanitized_cons hfirst, List.length_cons] at hlong
        have hrest := @ih cs (dstsz - 1) (by omega) (by omega) htag
        omega

/-- Without one at the start of the format, nothing is written behind the buffer. -/
theorem length_sanitizeFmt_lt (hpos : 0 < dstsz)
    (hnone : ∀ i < dstsz - 1, behindTag (src.drop i) = none) :
    (sanitizeFmt src dstsz).length < dstsz := by
  induction src generalizing dstsz with
  | nil => simpa [sanitizeFmt_nil] using hpos
  | cons c cs ih =>
    by_cases hsize : 1 < dstsz
    · rw [sanitizeFmt_cons hsize (hnone 0 (by omega)), List.length_cons]
      have hrest := @ih (dstsz - 1) (by omega) fun i hi => hnone (i + 1) (by omega)
      omega
    · rw [sanitizeFmt_of_le (by omega)]
      exact hpos

end Bound

/-- The copy stays in the buffer exactly when the format fits without what is dropped, or nothing
is dropped from a `%{` on that is among as many characters as the buffer has room for. -/
theorem sanitizeFmt_fits_iff (src : List Char) {dstsz : Nat} (hpos : 1 ≤ dstsz) :
    Fits src dstsz ↔ (sanitized src).length < dstsz ∨
      ∀ i < dstsz - 1, behindTag (src.drop i) = none := by
  constructor
  · intro h
    by_cases hlong : (sanitized src).length < dstsz
    · exact .inl hlong
    right
    intro i hi
    by_contra htag
    have hle := length_sanitizeFmt_of_tag (Nat.le_of_not_lt hlong)
      ⟨i, hi, Option.isSome_iff_ne_none.mpr htag⟩
    have hbound := h.bound
    omega
  · intro h
    refine ⟨?_, fun hfits => sanitizeFmt_eq_sanitized (by omega)⟩
    rcases h with hshort | hnone
    · rw [sanitizeFmt_eq_sanitized hshort]
      omega
    · exact length_sanitizeFmt_lt hpos hnone

/-- Two bytes and a NUL are left of the format, which fill the buffer. -/
theorem sanitizeFmt_fits_sample : Fits "%{public}s".toList 3 := by
  have htag : behindTag "%{public}s".toList = some ['s'] := by decide
  have hleft : sanitized "%{public}s".toList = ['%', 's'] := by
    rw [sanitized_tag htag, sanitized_cons (by decide), sanitized_nil]
  exact (sanitizeFmt_fits_iff "%{public}s".toList (by decide)).mpr (.inl (by rw [hleft]; decide))

/-- Three bytes and a NUL go to a buffer of two bytes. -/
theorem three_tags_overflow : ¬ Fits "%{}%{}%{}".toList 2 := by
  intro h
  have hbound := h.bound
  have hthree : behindTag "%{}%{}%{}".toList = some "%{}%{}".toList := by decide
  have htwo : behindTag "%{}%{}".toList = some "%{}".toList := by decide
  have hone : behindTag "%{}".toList = some [] := by decide
  rw [sanitizeFmt_tag (by decide) hthree, sanitizeFmt_tag (by decide) htwo,
    sanitizeFmt_tag (by decide) hone] at hbound
  simp only [List.length_cons] at hbound
  omega

end EglLog
