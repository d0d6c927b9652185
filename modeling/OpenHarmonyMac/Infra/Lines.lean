import Mathlib.Data.List.Basic

/-!
# Lines of a text

A line holds the characters that end it. Only the last line of a text may have none.

* `lines` — cut behind each `\n`
* `rawLines` — cut behind each `\n`, `\r\n` and other `\r`, which Python reads as `\n`
* `lines_universalNewlines` — the lines that Python reads are the raw ones, translated
-/

namespace Infra

/-- A character in front of the first line. -/
def consLine (c : Char) : List (List Char) → List (List Char)
  | [] => [[c]]
  | l :: ls => (c :: l) :: ls

def lines : List Char → List (List Char)
  | [] => []
  | c :: cs => if c = '\n' then ['\n'] :: lines cs else consLine c (lines cs)

def rawLines : List Char → List (List Char)
  | [] => []
  | '\r' :: '\n' :: cs => ['\r', '\n'] :: rawLines cs
  | c :: cs => if c = '\r' ∨ c = '\n' then [c] :: rawLines cs else consLine c (rawLines cs)

/-- What Python reads of a file that is open as text. -/
def universalNewlines : List Char → List Char
  | [] => []
  | '\r' :: '\n' :: cs => '\n' :: universalNewlines cs
  | c :: cs => (if c = '\r' then '\n' else c) :: universalNewlines cs

/-- A line: what stands in it, and how it ends. -/
structure IsLine (l body ending : List Char) : Prop where
  eq : l = body ++ ending
  body_ne : ∀ c ∈ body, c ≠ '\r' ∧ c ≠ '\n'
  ending_mem : ending ∈ [[], ['\n'], ['\r'], ['\r', '\n']]

variable {c : Char} {l body ending text : List Char}

@[simp] theorem flatten_consLine (c : Char) (ls : List (List Char)) :
    (consLine c ls).flatten = c :: ls.flatten := by
  cases ls <;> rfl

theorem universalNewlines_cons (hc : c ≠ '\r') (cs : List Char) :
    universalNewlines (c :: cs) = c :: universalNewlines cs := by
  rw [universalNewlines.eq_3 _ _ (by rintro _ rfl; exact absurd rfl hc), if_neg hc]

theorem universalNewlines_append (hbody : '\r' ∉ body) (rest : List Char) :
    universalNewlines (body ++ rest) = body ++ universalNewlines rest := by
  induction body with
  | nil => rfl
  | cons c cs ih =>
    obtain ⟨hc, hcs⟩ := not_or.mp (mt List.mem_cons.mpr hbody)
    rw [List.cons_append, universalNewlines_cons (Ne.symm hc), ih hcs, List.cons_append]

theorem universalNewlines_of_not_mem (htext : '\r' ∉ text) : universalNewlines text = text := by
  simpa [universalNewlines] using universalNewlines_append htext []

@[simp] theorem not_mem_universalNewlines (text : List Char) : '\r' ∉ universalNewlines text := by
  fun_induction universalNewlines text with
  | case1 => simp
  | case2 cs ih => simp [ih]
  | case3 c cs hcrlf ih =>
    split
    · simp [ih]
    · next hc => simp [ih, Ne.symm hc]

theorem flatten_rawLines (text : List Char) : (rawLines text).flatten = text := by
  fun_induction rawLines text with
  | case1 => rfl
  | case2 cs ih => simp [ih]
  | case3 c cs hcrlf hc ih => simp [ih]
  | case4 c cs hcrlf hc ih => simp [ih]

/-- **The lines that Python reads** are those of the file, each with a `\n` at its end. -/
theorem lines_universalNewlines (text : List Char) :
    lines (universalNewlines text) = (rawLines text).map universalNewlines := by
  fun_induction rawLines text with
  | case1 => rfl
  | case2 cs ih => simp [universalNewlines, lines, ih]
  | case3 c cs hcrlf hc ih =>
    have hun : universalNewlines (c :: cs) = '\n' :: universalNewlines cs := by
      rw [universalNewlines.eq_3 _ _ hcrlf]
      rcases hc with rfl | rfl <;> rfl
    have hone : universalNewlines [c] = ['\n'] := by
      rcases hc with rfl | rfl <;> rfl
    rw [hun, lines, if_pos rfl, ih, List.map_cons, hone]
  | case4 c cs hcrlf hc ih =>
    obtain ⟨hr, hn⟩ := not_or.mp hc
    rw [universalNewlines_cons hr, lines, if_neg hn, ih]
    cases rawLines cs with
    | nil => simp [consLine, universalNewlines_cons hr, universalNewlines]
    | cons l ls => simp [consLine, universalNewlines_cons hr]

theorem IsLine.cons (h : IsLine l body ending) (hc : c ≠ '\r' ∧ c ≠ '\n') :
    IsLine (c :: l) (c :: body) ending :=
  ⟨by rw [h.eq, List.cons_append], List.forall_mem_cons.mpr ⟨hc, h.body_ne⟩, h.ending_mem⟩

/-- Each raw line is one, and holds something. -/
theorem isLine_of_mem_rawLines (h : l ∈ rawLines text) :
    l ≠ [] ∧ ∃ body ending, IsLine l body ending := by
  fun_induction rawLines text generalizing l with
  | case1 => simp at h
  | case2 cs ih =>
    rcases List.mem_cons.mp h with rfl | h
    · exact ⟨by simp, [], ['\r', '\n'], ⟨rfl, by simp, by simp⟩⟩
    · exact ih h
  | case3 c cs hcrlf hc ih =>
    rcases List.mem_cons.mp h with rfl | h
    · refine ⟨by simp, [], [c], ⟨rfl, by simp, ?_⟩⟩
      rcases hc with rfl | rfl <;> simp
    · exact ih h
  | case4 c cs hcrlf hc ih =>
    have hc := not_or.mp hc
    cases hls : rawLines cs with
    | nil =>
      rw [hls, consLine, List.mem_singleton] at h
      exact h ▸ ⟨by simp, [c], [], ⟨rfl, by simpa using hc, by simp⟩⟩
    | cons l' ls =>
      rw [hls, consLine] at h
      rw [hls] at ih
      rcases List.mem_cons.mp h with rfl | h
      · obtain ⟨-, body, ending, hl⟩ := ih List.mem_cons_self
        exact ⟨by simp, _, _, hl.cons hc⟩
      · exact ih (List.mem_cons_of_mem _ h)

/-- A line alone is the only one of its text. -/
theorem rawLines_of_isLine (h : IsLine l body ending) (hne : l ≠ []) : rawLines l = [l] := by
  obtain ⟨rfl, hbody, hending⟩ := h
  induction body with
  | nil =>
    simp only [List.mem_cons, List.not_mem_nil, or_false] at hending
    rcases hending with rfl | rfl | rfl | rfl
    · exact absurd rfl hne
    all_goals decide
  | cons c cs ih =>
    obtain ⟨hc, hcs⟩ := List.forall_mem_cons.mp hbody
    rw [List.cons_append, rawLines.eq_3 _ _ (by rintro _ rfl; exact absurd rfl hc.1),
      if_neg (not_or.mpr hc)]
    by_cases hrest : cs ++ ending = []
    · rw [hrest]
      rfl
    · rw [ih hcs hrest]
      rfl

end Infra
