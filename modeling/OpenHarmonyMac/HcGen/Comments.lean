import OpenHarmonyMac.HcGen.Reading

/-!
# Comments

`ProcessComment` is called where `PeekChar` has found a `/`.

* `processesComment_iff` — when it skips the comment that is there, and nothing else
-/

namespace HcGen

open Infra Infra.Program

/-! ## What a comment is -/

/-- What follows the next `*/`, if there is one. -/
def behindBlock : List UInt8 → Option (List UInt8)
  | [] => none
  | c :: text =>
    if c = byte '*' ∧ text.head? = some (byte '/') then some text.tail else behindBlock text

/-- What follows the line. -/
def behindLine (text : List UInt8) : List UInt8 := (text.dropWhile (· ≠ byte '\n')).tail

/-- The comment is skipped without an error, and `text` comes next. -/
def Accepts (text : List UInt8) (o : Outcome Lexer Event Bool) : Prop :=
  o.result = some true ∧ o.state.rest = text ∧ ∀ e ∈ o.trace, e.Fine

/-- An error is reported. -/
def Rejects (o : Outcome Lexer Event Bool) : Prop :=
  o.result = some false ∧ ∃ e ∈ o.trace, ¬ e.Fine

/-- What is to come of the text behind the first `/`. -/
def CommentLaw (text : List UInt8) (o : Outcome Lexer Event Bool) : Prop :=
  match text with
  | [] => Rejects o
  | c :: text =>
    if c = byte '/' then Accepts (behindLine text) o
    else if c = byte '*' then
      match behindBlock text with
      | some rest => Accepts rest o
      | none => Rejects o
    else Rejects o

/-- With enough fuel, the call from here does what it is to do. -/
def ProcessesComment (h : Host) (s : Lexer) : Prop :=
  ∀ fuel, s.rest.length + 1 < fuel → CommentLaw s.rest.tail (Lexer.processComment h fuel s)

/-! ## Where the loops stop -/

variable (h : Host)

/-- The stars at the end of a text after the next character, blanks that `GetChar` skips aside. -/
def Host.starStep (n : Nat) (c : UInt8) : Nat :=
  if h.getCharSkipsSpace && isSpace c then n else if c = byte '*' then n + 1 else 0

/-- The stars at the end of a text that comes behind `n` stars. -/
def Host.starRun (n : Nat) (pre : List UInt8) : Nat := pre.foldl h.starStep n

/-- Behind `n` stars the loop of a block comment stops at `c`: at a `/` if `n` is odd, or at what it
takes for `EOF` if `n` is even. -/
def Host.StopsAt (n : Nat) (c : UInt8) : Prop :=
  c = byte '/' ∧ n % 2 = 1 ∨ h.isEof c = true ∧ n % 2 = 0

/-- The first such place in a text that comes behind `n` stars. -/
structure Host.FirstStop (n : Nat) (text pre : List UInt8) (c : UInt8) (rest : List UInt8) :
    Prop where
  split : text = pre ++ c :: rest
  stops : h.StopsAt (h.starRun n pre) c
  first : ∀ p d q, pre = p ++ d :: q → ¬ h.StopsAt (h.starRun n p) d

/-- The loop of a block comment goes wrong in time: it meets the end of the file, or what it takes
for that, before a `/` behind an odd number of stars. -/
def Host.Unclosed (text : List UInt8) : Prop :=
  h.charSigned = true ∧ ∀ pre rest, ¬ h.FirstStop 0 text pre (byte '/') rest

/-- The first stop is the `/` of the first `*/`. -/
def Host.BlockRight (text : List UInt8) : Prop :=
  match behindBlock text with
  | some rest => ∃ pre, h.FirstStop 0 text pre (byte '/') rest
  | none => h.Unclosed text

/-- Nothing in the line is taken for `EOF`, except for the last byte of the file; and a line that
is the last one can be told to end. -/
def Host.LineRight (text : List UInt8) : Prop :=
  (h.charSigned = true ∨ byte '\n' ∈ text) ∧
    ∀ pre c rest, text = pre ++ c :: rest → h.isEof c = true → byte '\n' ∈ pre ∨ rest = []

/-- The text behind a `/` that `ProcessComment` is right about. -/
def Host.CommentRight (text : List UInt8) : Prop :=
  match text with
  | [] => True
  | c :: rest =>
    if c = byte '/' then h.LineRight rest
    else if c = byte '*' then h.BlockRight rest
    else
      -- blanks between `/` and the next character are skipped
      match Lexer.skipped h.getCharSkipsSpace text with
      | [] => True
      | d :: rest => d ≠ byte '/' ∧ (d = byte '*' → h.Unclosed rest)

/-! ## The scanner of a block comment -/

/-- The first stop, from behind an odd or an even number of stars. -/
def Host.scanBlock (odd : Bool) : List UInt8 → Option (UInt8 × List UInt8)
  | [] => none
  | c :: text =>
    if h.getCharSkipsSpace && isSpace c then Host.scanBlock odd text
    else if odd then
      if c = byte '/' then some (c, text) else Host.scanBlock false text
    else if h.isEof c then some (c, text)
    else Host.scanBlock (c = byte '*') text

variable {h} {text pre rest : List UInt8} {c d : UInt8} {n : Nat}

theorem isEof_iff : h.isEof c = true ↔ h.charSigned = true ∧ c = eof := by
  simp [Host.isEof]

theorem not_isSpace_of_isEof (hc : h.isEof c = true) : isSpace c = false := by
  rw [(isEof_iff.mp hc).2]
  decide

/-- The loop stops at once, or goes on behind the next character. -/
theorem Host.firstStop_cons : (∃ pre, h.FirstStop n (d :: text) pre c rest) ↔
    h.StopsAt n d ∧ d = c ∧ text = rest ∨
      ¬ h.StopsAt n d ∧ ∃ pre, h.FirstStop (h.starStep n d) text pre c rest := by
  constructor
  · rintro ⟨pre, hsplit, hstops, hfirst⟩
    cases pre with
    | nil =>
      obtain ⟨rfl, rfl⟩ := List.cons.inj hsplit
      exact .inl ⟨hstops, rfl, rfl⟩
    | cons d' pre =>
      obtain ⟨rfl, rfl⟩ := List.cons.inj hsplit
      refine .inr ⟨hfirst [] d pre rfl, pre, rfl, hstops, ?_⟩
      rintro p d' q rfl
      exact hfirst (d :: p) d' q rfl
  · rintro (⟨hstops, rfl, rfl⟩ | ⟨hnot, pre, rfl, hstops, hfirst⟩)
    · exact ⟨[], rfl, hstops, by simp⟩
    · refine ⟨d :: pre, rfl, hstops, ?_⟩
      intro p d' q heq
      cases p with
      | nil =>
        obtain ⟨rfl, -⟩ := List.cons.inj heq
        exact hnot
      | cons d'' p =>
        obtain ⟨rfl, rfl⟩ := List.cons.inj heq
        exact hfirst p d' q rfl

open Classical in
theorem Host.scanBlock_cons (n : Nat) : h.scanBlock (n % 2 = 1) (d :: text) =
    if h.StopsAt n d then some (d, text) else h.scanBlock (h.starStep n d % 2 = 1) text := by
  rw [Host.scanBlock]
  by_cases hblank : (h.getCharSkipsSpace && isSpace d) = true
  · have hspace : isSpace d = true := (Bool.and_eq_true_iff.mp hblank).2
    have hnot : ¬ h.StopsAt n d := by
      rintro (⟨rfl, -⟩ | ⟨heof, -⟩)
      · revert hspace
        decide
      · rw [not_isSpace_of_isEof heof] at hspace
        cases hspace
    rw [if_pos hblank, if_neg hnot, Host.starStep, if_pos hblank]
  · rw [if_neg hblank, Host.starStep, if_neg hblank]
    rcases Nat.mod_two_eq_zero_or_one n with hn | hn
    · have hstops : h.StopsAt n d ↔ h.isEof d = true := by simp [Host.StopsAt, hn]
      have hnext :
          decide ((if d = byte '*' then n + 1 else 0) % 2 = 1) = decide (d = byte '*') := by
        split
        · next hd =>
          rw [decide_eq_decide]
          exact iff_of_true (by omega) hd
        · next hd => simp [hd]
      rw [hnext]
      simp [hstops, hn]
    · have hstops : h.StopsAt n d ↔ d = byte '/' := by simp [Host.StopsAt, hn]
      have hnext : decide ((if d = byte '*' then n + 1 else 0) % 2 = 1) = false := by
        split
        · rw [decide_eq_false_iff_not]
          omega
        · rfl
      rw [hnext]
      simp [hstops, hn]

/-- The scanner finds the first stop. -/
theorem Host.scanBlock_eq_some_iff (n : Nat) :
    h.scanBlock (n % 2 = 1) text = some (c, rest) ↔ ∃ pre, h.FirstStop n text pre c rest := by
  induction text generalizing n with
  | nil =>
    refine iff_of_false (by simp [Host.scanBlock]) ?_
    rintro ⟨pre, hsplit, -⟩
    simp at hsplit
  | cons d text ih =>
    rw [Host.scanBlock_cons, Host.firstStop_cons, ← ih]
    by_cases hstops : h.StopsAt n d
    · simp [hstops]
    · simp [hstops]

/-! ## The loops -/

namespace Lexer

variable {fuel : Nat} {x : UInt8}

/-- The loop of a line comment, once. -/
def lineBody (h : Host) (fuel : Nat) (c : UInt8) : LexM (UInt8 ⊕ UInt8) := do
  if c = byte '\n' then return .inr c
  else
    let (c, found) ← getChar h fuel h.getCharSkipsSpace
    return if found then .inl c else .inr c

/-- The loop of a block comment, once. -/
def blockBody (h : Host) (fuel : Nat) (_ : Unit) : LexM (Unit ⊕ Option UInt8) := do
  let (c, found) ← getChar h fuel h.getCharSkipsSpace
  if !found then return .inr (some c)
  else if c = byte '*' then
    let (c, found) ← getChar h fuel h.getCharSkipsSpace
    return if found && c == byte '/' then .inr none else .inl ()
  else return .inl ()

theorem closed_outOfFuel {α : Type} :
    Closed Event.Fine fun o : Outcome Lexer Event α => o.result = none :=
  fun _ _ _ _ _ hr => hr

/-- A character that a line comment has in it. -/
def inLine (h : Host) (c : UInt8) : Bool := c != byte '\n' && !h.isEof c

theorem inLine_of_isSpace (hc : isSpace c = true) : inLine h c = true := by
  have hne : c ≠ byte '\n' := by
    rintro rfl
    revert hc
    decide
  have heof : h.isEof c = false := by
    by_contra hnot
    rw [not_isSpace_of_isEof (by simpa using hnot)] at hc
    cases hc
  simp [inLine, hne, heof]

theorem dropWhile_skipped {p : UInt8 → Bool} (hp : ∀ c, isSpace c = true → p c = true)
    (skipSpace : Bool) (text : List UInt8) :
    (skipped skipSpace text).dropWhile p = text.dropWhile p := by
  cases skipSpace with
  | false => rfl
  | true =>
    rw [skipped, if_pos rfl]
    induction text with
    | nil => rfl
    | cons c text ih =>
      by_cases hc : isSpace c = true
      · rw [List.dropWhile_cons_of_pos hc, List.dropWhile_cons_of_pos (hp c hc), ih]
      · rw [List.dropWhile_cons_of_neg hc]

/-- `GetChar` where there is a character. -/
theorem getChar_reads_cons (hfuel : text.length + 1 < fuel)
    (hskip : skipped h.getCharSkipsSpace text = c :: rest) :
    Reads (getChar h fuel h.getCharSkipsSpace) text (c, !h.isEof c) rest := by
  have hread := getChar_reads (h := h) h.getCharSkipsSpace hfuel
  rwa [hskip] at hread

/-- `GetChar` at the end of the file. -/
theorem getChar_reads_nil (hfuel : text.length + 1 < fuel)
    (hskip : skipped h.getCharSkipsSpace text = []) :
    Reads (getChar h fuel h.getCharSkipsSpace) text (eof, !h.charSigned) [] := by
  have hread := getChar_reads (h := h) h.getCharSkipsSpace hfuel
  rw [hskip] at hread
  cases hs : h.charSigned with
  | false => simpa [Host.isEof, hs] using hread
  | true => simpa [Host.isEof, hs] using hread

theorem length_lt_of_skipped {skipSpace : Bool} (hskip : skipped skipSpace text = c :: rest) :
    rest.length < text.length := by
  have hle := length_skipped_le skipSpace text
  rw [hskip, List.length_cons] at hle
  exact hle

/-- One turn behind a character of the line: the loop stops at what is taken for `EOF`, or it goes
on with the same end before it, or it has come to the end of the file. -/
theorem lineBody_cases (hfuel : text.length + 1 < fuel) (hc : c ≠ byte '\n') :
    (∃ x rest, text.dropWhile (inLine h) = x :: rest ∧
      Reads (lineBody h fuel c) text (.inr x) rest) ∨
    (∃ d text', text'.length < text.length ∧ text.dropWhile (inLine h) =
        (if d = byte '\n' then d :: text' else text'.dropWhile (inLine h)) ∧
      Reads (lineBody h fuel c) text (.inl d) text') ∨
    text.dropWhile (inLine h) = [] ∧ Reads (lineBody h fuel c) text
      (if h.charSigned then .inr eof else .inl eof) [] := by
  rw [← dropWhile_skipped (fun c => inLine_of_isSpace) h.getCharSkipsSpace, lineBody, if_neg hc]
  cases hskip : skipped h.getCharSkipsSpace text with
  | nil =>
    refine .inr (.inr ⟨rfl, (getChar_reads_nil hfuel hskip).bind ?_⟩)
    cases h.charSigned with
    | false => exact Yields.pure _ _
    | true => exact Yields.pure _ _
  | cons d text' =>
    have hread := getChar_reads_cons hfuel hskip
    have hlt := length_lt_of_skipped hskip
    cases heof : h.isEof d with
    | true =>
      rw [heof] at hread
      rw [List.dropWhile_cons_of_neg (by simp [inLine, heof])]
      exact .inl ⟨d, text', rfl, hread.bind (Yields.pure _ _)⟩
    | false =>
      rw [heof] at hread
      refine .inr (.inl ⟨d, text', hlt, ?_, hread.bind (Yields.pure _ _)⟩)
      by_cases hd : d = byte '\n'
      · rw [if_pos hd, List.dropWhile_cons_of_neg (by simp [inLine, hd])]
      · rw [if_neg hd, List.dropWhile_cons_of_pos (by simp [inLine, hd, heof])]

/-- The loop of a line comment ends behind the first character that it does not have in it. -/
theorem lineLoop_reads (hfuel : text.length + 1 < fuel) (hn : text.length + 1 < n)
    (hc : c ≠ byte '\n') (hend : text.dropWhile (inLine h) = x :: rest) :
    Reads (loop (lineBody h fuel) n c) text x rest := by
  induction n generalizing text c with
  | zero => exact absurd hn (Nat.not_lt_zero _)
  | succ n ih =>
    rcases lineBody_cases hfuel hc with
      ⟨x', rest', heq, hread⟩ | ⟨d, text', hlt, heq, hread⟩ | ⟨heq, -⟩
    · rw [heq] at hend
      obtain ⟨rfl, rfl⟩ := List.cons.inj hend
      exact Yields.loop hread
    · rw [heq] at hend
      by_cases hd : d = byte '\n'
      · rw [if_pos hd] at hend
        obtain ⟨rfl, rfl⟩ := List.cons.inj hend
        obtain ⟨n, rfl⟩ := Nat.exists_eq_succ_of_ne_zero (show n ≠ 0 by omega)
        refine hread.ends_loop closed_yields (Yields.loop ?_)
        rw [lineBody, if_pos hd]
        exact Yields.pure _ _
      · rw [if_neg hd] at hend
        exact hread.ends_loop closed_yields (ih (by omega) (by omega) hd hend)
    · rw [heq] at hend
      cases hend

/-- The last line of a file, where the end of the file can be told from a character. -/
theorem lineLoop_reads_eof (hs : h.charSigned = true) (hfuel : text.length + 1 < fuel)
    (hn : text.length + 1 < n) (hc : c ≠ byte '\n') (hend : text.dropWhile (inLine h) = []) :
    Reads (loop (lineBody h fuel) n c) text eof [] := by
  induction n generalizing text c with
  | zero => exact absurd hn (Nat.not_lt_zero _)
  | succ n ih =>
    rcases lineBody_cases hfuel hc with
      ⟨x', rest', heq, -⟩ | ⟨d, text', hlt, heq, hread⟩ | ⟨-, hread⟩
    · rw [heq] at hend
      cases hend
    · rw [heq] at hend
      by_cases hd : d = byte '\n'
      · rw [if_pos hd] at hend
        cases hend
      · rw [if_neg hd] at hend
        exact hread.ends_loop closed_yields (ih (by omega) (by omega) hd hend)
    · rw [if_pos hs] at hread
      exact Yields.loop hread

/-- The last line of a file, where the end of the file is taken for a character. -/
theorem lineLoop_diverges (hs : h.charSigned = false) (hfuel : text.length + 1 < fuel)
    (hc : c ≠ byte '\n') (hend : text.dropWhile (inLine h) = []) (n : Nat) :
    Ends Before (loop (lineBody h fuel) n c) text fun o => o.result = none := by
  induction n generalizing text c with
  | zero => exact fun _ _ => rfl
  | succ n ih =>
    rcases lineBody_cases hfuel hc with
      ⟨x', rest', heq, -⟩ | ⟨d, text', hlt, heq, hread⟩ | ⟨-, hread⟩
    · rw [heq] at hend
      cases hend
    · rw [heq] at hend
      by_cases hd : d = byte '\n'
      · rw [if_pos hd] at hend
        cases hend
      · rw [if_neg hd] at hend
        exact hread.ends_loop closed_outOfFuel (ih (by omega) hd hend)
    · rw [if_neg (by simp [hs])] at hread
      have hshort : ([] : List UInt8).length + 1 < fuel :=
        Nat.lt_of_le_of_lt (Nat.succ_le_succ (Nat.zero_le _)) hfuel
      exact hread.ends_loop closed_outOfFuel (ih hshort (by decide) rfl)

/-! ### Block comments -/

theorem scanBlock_of_skipped_nil (hskip : skipped h.getCharSkipsSpace text = []) (odd : Bool) :
    h.scanBlock odd text = none := by
  cases hb : h.getCharSkipsSpace with
  | false =>
    rw [skipped, hb, if_neg (by simp)] at hskip
    rw [hskip, Host.scanBlock]
  | true =>
    rw [skipped, hb, if_pos rfl] at hskip
    induction text with
    | nil => rw [Host.scanBlock]
    | cons c text ih =>
      by_cases hc : isSpace c = true
      · rw [List.dropWhile_cons_of_pos hc] at hskip
        rw [Host.scanBlock, if_pos (by simp [hb, hc]), ih hskip]
      · rw [List.dropWhile_cons_of_neg hc] at hskip
        cases hskip

theorem scanBlock_of_skipped_cons (hskip : skipped h.getCharSkipsSpace text = d :: rest)
    (odd : Bool) : h.scanBlock odd text =
      if odd then if d = byte '/' then some (d, rest) else h.scanBlock false rest
      else if h.isEof d then some (d, rest) else h.scanBlock (d = byte '*') rest := by
  cases hb : h.getCharSkipsSpace with
  | false =>
    rw [skipped, hb, if_neg (by simp)] at hskip
    rw [hskip, Host.scanBlock, if_neg (by simp [hb])]
  | true =>
    rw [skipped, hb, if_pos rfl] at hskip
    induction text with
    | nil => cases hskip
    | cons c text ih =>
      by_cases hc : isSpace c = true
      · rw [List.dropWhile_cons_of_pos hc] at hskip
        rw [Host.scanBlock, if_pos (by simp [hb, hc]), ih hskip]
      · rw [List.dropWhile_cons_of_neg hc] at hskip
        obtain ⟨rfl, rfl⟩ := List.cons.inj hskip
        rw [Host.scanBlock, if_neg (by simp [hc])]

/-- What the loop of a block comment returns when it stops at `c`. -/
def stoppedAt (c : UInt8) : Option UInt8 := if c = byte '/' then none else some c

theorem blockBody_reads_end
    (hread : Reads (getChar h fuel h.getCharSkipsSpace) text (c, false) rest) :
    Reads (blockBody h fuel ()) text (.inr (some c)) rest :=
  hread.bind (Yields.pure _ _)

theorem blockBody_reads_other (hc : c ≠ byte '*')
    (hread : Reads (getChar h fuel h.getCharSkipsSpace) text (c, true) rest) :
    Reads (blockBody h fuel ()) text (.inl ()) rest := by
  refine hread.bind ?_
  simp only [if_neg hc]
  exact Yields.pure _ _

/-- The next character is taken together with the star. -/
theorem blockBody_reads_star {rest' : List UInt8} {found : Bool}
    (hread : Reads (getChar h fuel h.getCharSkipsSpace) text (byte '*', true) rest)
    (hnext : Reads (getChar h fuel h.getCharSkipsSpace) rest (d, found) rest') :
    Reads (blockBody h fuel ()) text (if found && d == byte '/' then .inr none else .inl ())
      rest' :=
  hread.bind (hnext.bind (Yields.pure _ _))

/-- A star: the `/` behind it ends the loop, and any other character is passed over. -/
theorem blockBody_star (hfuel : text.length + 1 < fuel)
    (hskip : skipped h.getCharSkipsSpace text = byte '*' :: rest) :
    (∃ rest', h.scanBlock true rest = some (byte '/', rest') ∧
      Reads (blockBody h fuel ()) text (.inr none) rest') ∨
    ∃ text', text'.length < text.length ∧ h.scanBlock true rest = h.scanBlock false text' ∧
      Reads (blockBody h fuel ()) text (.inl ()) text' := by
  have hlt := length_lt_of_skipped hskip
  have hrest : rest.length + 1 < fuel := by omega
  have hstar : h.isEof (byte '*') = false := by simp [Host.isEof, byte, eof]
  have hread := getChar_reads_cons hfuel hskip
  rw [hstar] at hread
  cases hskip' : skipped h.getCharSkipsSpace rest with
  | nil =>
    have hgo := blockBody_reads_star hread (getChar_reads_nil hrest hskip')
    rw [show (eof == byte '/') = false by decide, Bool.and_false] at hgo
    refine .inr ⟨[], Nat.zero_lt_of_lt hlt, ?_, hgo⟩
    rw [scanBlock_of_skipped_nil hskip', Host.scanBlock]
  | cons d rest' =>
    have hlt' := length_lt_of_skipped hskip'
    have hgo := blockBody_reads_star hread (getChar_reads_cons hrest hskip')
    rw [scanBlock_of_skipped_cons hskip', if_pos rfl]
    by_cases hslash : d = byte '/'
    · subst hslash
      have hne : h.isEof (byte '/') = false := by simp [Host.isEof, byte, eof]
      rw [hne] at hgo
      exact .inl ⟨rest', if_pos rfl, hgo⟩
    · rw [beq_eq_false_iff_ne.mpr hslash, Bool.and_false] at hgo
      exact .inr ⟨rest', by omega, if_neg hslash, hgo⟩

/-- One turn: the loop stops, or it goes on with the same stop before it, or it has come to the end
of the file. -/
theorem blockBody_cases (hfuel : text.length + 1 < fuel) :
    (∃ c rest, h.scanBlock false text = some (c, rest) ∧
      Reads (blockBody h fuel ()) text (.inr (stoppedAt c)) rest) ∨
    (∃ text', text'.length < text.length ∧ h.scanBlock false text = h.scanBlock false text' ∧
      Reads (blockBody h fuel ()) text (.inl ()) text') ∨
    h.scanBlock false text = none ∧ Reads (blockBody h fuel ()) text
      (if h.charSigned then .inr (some eof) else .inl ()) [] := by
  cases hskip : skipped h.getCharSkipsSpace text with
  | nil =>
    have hread := getChar_reads_nil hfuel hskip
    refine .inr (.inr ⟨scanBlock_of_skipped_nil hskip _, ?_⟩)
    cases hs : h.charSigned with
    | false =>
      rw [hs] at hread
      exact blockBody_reads_other (by decide) hread
    | true =>
      rw [hs] at hread
      exact blockBody_reads_end hread
  | cons c rest =>
    have hscan := scanBlock_of_skipped_cons hskip false
    have hread := getChar_reads_cons hfuel hskip
    have hlt := length_lt_of_skipped hskip
    rw [if_neg (by simp)] at hscan
    cases heof : h.isEof c with
    | true =>
      have hne : c ≠ byte '/' := by
        rw [(isEof_iff.mp heof).2]
        decide
      rw [if_pos heof] at hscan
      rw [heof] at hread
      refine .inl ⟨c, rest, hscan, ?_⟩
      rw [stoppedAt, if_neg hne]
      exact blockBody_reads_end hread
    | false =>
      rw [if_neg (by simp [heof])] at hscan
      rw [heof] at hread
      by_cases hstar : c = byte '*'
      · subst hstar
        rw [decide_eq_true rfl] at hscan
        rcases blockBody_star hfuel hskip with ⟨rest', hstop, hgo⟩ | ⟨text', hlt', hnext, hgo⟩
        · exact .inl ⟨byte '/', rest', hscan.trans hstop, hgo⟩
        · exact .inr (.inl ⟨text', hlt', hscan.trans hnext, hgo⟩)
      · rw [decide_eq_false hstar] at hscan
        exact .inr (.inl ⟨rest, hlt, hscan, blockBody_reads_other hstar hread⟩)

/-- The loop of a block comment ends behind the first stop. -/
theorem blockLoop_reads (hfuel : text.length + 1 < fuel) (hn : text.length < n)
    (hscan : h.scanBlock false text = some (c, rest)) :
    Reads (loop (blockBody h fuel) n ()) text (stoppedAt c) rest := by
  induction n generalizing text with
  | zero => exact absurd hn (Nat.not_lt_zero _)
  | succ n ih =>
    rcases blockBody_cases hfuel with
      ⟨c', rest', heq, hread⟩ | ⟨text', hlt, heq, hread⟩ | ⟨heq, -⟩
    · rw [heq] at hscan
      obtain ⟨rfl, rfl⟩ := Prod.mk.inj (Option.some.inj hscan)
      exact Yields.loop hread
    · rw [heq] at hscan
      exact hread.ends_loop closed_yields (ih (by omega) (by omega) hscan)
    · rw [heq] at hscan
      cases hscan

/-- A block comment that does not stop before the end of the file. -/
theorem blockLoop_reads_eof (hs : h.charSigned = true) (hfuel : text.length + 1 < fuel)
    (hn : text.length < n) (hscan : h.scanBlock false text = none) :
    Reads (loop (blockBody h fuel) n ()) text (some eof) [] := by
  induction n generalizing text with
  | zero => exact absurd hn (Nat.not_lt_zero _)
  | succ n ih =>
    rcases blockBody_cases hfuel with
      ⟨c', rest', heq, -⟩ | ⟨text', hlt, heq, hread⟩ | ⟨-, hread⟩
    · rw [heq] at hscan
      cases hscan
    · rw [heq] at hscan
      exact hread.ends_loop closed_yields (ih (by omega) (by omega) hscan)
    · rw [if_pos hs] at hread
      exact Yields.loop hread

theorem blockLoop_diverges (hs : h.charSigned = false) (hfuel : text.length + 1 < fuel)
    (hscan : h.scanBlock false text = none) (n : Nat) :
    Ends Before (loop (blockBody h fuel) n ()) text fun o => o.result = none := by
  induction n generalizing text with
  | zero => exact fun _ _ => rfl
  | succ n ih =>
    rcases blockBody_cases hfuel with
      ⟨c', rest', heq, -⟩ | ⟨text', hlt, heq, hread⟩ | ⟨-, hread⟩
    · rw [heq] at hscan
      cases hscan
    · rw [heq] at hscan
      exact hread.ends_loop closed_outOfFuel (ih (by omega) hscan)
    · rw [if_neg (by simp [hs])] at hread
      have hshort : ([] : List UInt8).length + 1 < fuel :=
        Nat.lt_of_le_of_lt (Nat.succ_le_succ (Nat.zero_le _)) hfuel
      exact hread.ends_loop closed_outOfFuel (ih hshort (by rw [Host.scanBlock]))

/-! ## `ProcessComment` -/

theorem closed_rejects : Closed Event.Fine Rejects := by
  rintro r s l l' - ⟨hr, e, he, hfine⟩
  exact ⟨hr, e, List.mem_append_right _ he, hfine⟩

theorem closed_accepts (text : List UInt8) : Closed Event.Fine (Accepts text) := by
  rintro r s l l' hl ⟨hr, hs, hl'⟩
  exact ⟨hr, hs, List.forall_mem_append.mpr ⟨hl, hl'⟩⟩

theorem error_rejects (message : String) (text : List UInt8) :
    Ends Before (error message >>= fun _ => pure false) text Rejects :=
  fun s _ => ⟨rfl, .error s.lineno s.lineLoc message, List.mem_singleton.mpr rfl, id⟩

theorem pure_accepts (text : List UInt8) :
    Ends Before (pure true : LexM Bool) text (Accepts text) :=
  fun _ hs => ⟨rfl, hs.rest, by simp⟩

/-- `ProcessComment` behind the two characters that it begins with. -/
def commentBody (h : Host) (fuel : Nat) (c : UInt8) : LexM Bool :=
  if c = byte '/' then
    loop (lineBody h fuel) fuel c >>= fun c =>
      if c ≠ byte '\n' ∧ ¬ h.isEof c then
        error "unterminated signal line comment" >>= fun _ => pure false
      else pure true
  else if c = byte '*' then
    loop (blockBody h fuel) fuel () >>= fun last =>
      match last with
      | none => pure true
      | some c =>
        if c ≠ byte '/' then error "unterminated multi-line comment" >>= fun _ => pure false
        else pure true
  else error "invalid character" >>= fun _ => pure false

theorem processComment_eq (h : Host) (fuel : Nat) : processComment h fuel =
    (consumeChar h fuel >>= fun _ => getChar h fuel h.getCharSkipsSpace >>= fun r =>
      if !r.2 then error "unterminated comment" >>= fun _ => pure false
      else commentBody h fuel r.1) := rfl

/-- What a call comes to: an error, or the text that is left; `none` if it does not return. -/
abbrev Verdict := Option (Option (List UInt8))

def Comes (v : Verdict) (o : Outcome Lexer Event Bool) : Prop :=
  match v with
  | none => o.result = none
  | some none => Rejects o
  | some (some rest) => Accepts rest o

theorem closed_comes (v : Verdict) : Closed Event.Fine (Comes v) := by
  match v with
  | none => exact closed_outOfFuel
  | some none => exact closed_rejects
  | some (some rest) => exact closed_accepts rest

theorem Comes.rejects_iff {v : Verdict} {o : Outcome Lexer Event Bool} (ho : Comes v o) :
    Rejects o ↔ v = some none := by
  match v with
  | none => exact iff_of_false (fun hr => by rw [Rejects, ho] at hr; simp at hr) (by simp)
  | some none => exact iff_of_true ho rfl
  | some (some rest) =>
    refine iff_of_false (fun hr => ?_) (by simp)
    rw [Rejects, ho.1] at hr
    simp at hr

theorem Comes.accepts_iff {v : Verdict} {o : Outcome Lexer Event Bool} (ho : Comes v o)
    (rest : List UInt8) : Accepts rest o ↔ v = some (some rest) := by
  match v with
  | none => exact iff_of_false (fun hr => by rw [Accepts, ho] at hr; simp at hr) (by simp)
  | some none => exact iff_of_false (fun hr => by rw [Accepts, ho.1] at hr; simp at hr) (by simp)
  | some (some rest') =>
    constructor
    · rintro ⟨-, hrest, -⟩
      rw [← hrest, ho.2.1]
    · intro heq
      rw [← Option.some.inj (Option.some.inj heq)]
      exact ho

/-- A line comment. -/
def lineVerdict (h : Host) (text : List UInt8) : Verdict :=
  match text.dropWhile (inLine h) with
  | _ :: rest => some (some rest)
  | [] => if h.charSigned then some (some []) else none

/-- A block comment. -/
def blockVerdict (h : Host) (text : List UInt8) : Verdict :=
  match h.scanBlock false text with
  | some (c, rest) => some (if c = byte '/' then some rest else none)
  | none => if h.charSigned then some none else none

/-- The text behind the first `/`. -/
def commentVerdict (h : Host) (text : List UInt8) : Verdict :=
  match skipped h.getCharSkipsSpace text with
  | [] => some none
  | c :: rest =>
    if h.isEof c then some none
    else if c = byte '/' then lineVerdict h rest
    else if c = byte '*' then blockVerdict h rest
    else some none

theorem commentBody_line (hfuel : text.length + 1 < fuel) :
    Ends Before (commentBody h fuel (byte '/')) text (Comes (lineVerdict h text)) := by
  have hslash : byte '/' ≠ byte '\n' := by decide
  rw [commentBody, if_pos rfl, lineVerdict]
  cases hend : text.dropWhile (inLine h) with
  | nil =>
    cases hs : h.charSigned with
    | false =>
      intro s hbefore
      have hnone := lineLoop_diverges hs hfuel hslash hend fuel s hbefore
      rw [bind_of_none hnone]
      rfl
    | true =>
      refine (lineLoop_reads_eof hs hfuel hfuel hslash hend).ends_bind (closed_comes _) ?_
      rw [if_neg (by simp [Host.isEof, hs])]
      exact pure_accepts []
  | cons x rest =>
    refine (lineLoop_reads hfuel hfuel hslash hend).ends_bind (closed_comes _) ?_
    have hx : ¬ inLine h x = true := by
      have hhead := List.head?_dropWhile_not (inLine h) text
      rw [hend] at hhead
      simpa using hhead
    rw [if_neg (by simpa [inLine] using hx)]
    exact pure_accepts rest

theorem commentBody_block (hfuel : text.length + 1 < fuel) :
    Ends Before (commentBody h fuel (byte '*')) text (Comes (blockVerdict h text)) := by
  have hn : text.length < fuel := by omega
  rw [commentBody, if_neg (by decide), if_pos rfl, blockVerdict]
  cases hscan : h.scanBlock false text with
  | none =>
    cases hs : h.charSigned with
    | false =>
      intro s hbefore
      have hnone := blockLoop_diverges hs hfuel hscan fuel s hbefore
      rw [bind_of_none hnone]
      rfl
    | true =>
      refine (blockLoop_reads_eof hs hfuel hn hscan).ends_bind (closed_comes _) ?_
      exact error_rejects _ []
  | some r =>
    obtain ⟨c, rest⟩ := r
    refine (blockLoop_reads hfuel hn hscan).ends_bind (closed_comes _) ?_
    by_cases hc : c = byte '/'
    · simp only [stoppedAt, if_pos hc]
      exact pure_accepts rest
    · simp only [stoppedAt, if_neg hc]
      rw [if_pos hc]
      exact error_rejects _ rest

/-- **What `ProcessComment` comes to**, by the text behind the first `/`. -/
theorem processComment_comes (hfuel : text.length + 2 < fuel) (c : UInt8) :
    Ends Before (processComment h fuel) (c :: text) (Comes (commentVerdict h text)) := by
  rw [processComment_eq]
  refine (consumeChar_reads hfuel).ends_bind (closed_comes _) ?_
  rw [List.tail_cons, commentVerdict]
  have hfuel' : text.length + 1 < fuel := by omega
  cases hskip : skipped h.getCharSkipsSpace text with
  | nil =>
    refine (getChar_reads_nil hfuel' hskip).ends_bind (closed_comes _) ?_
    cases hs : h.charSigned with
    | false => exact error_rejects _ []
    | true => exact error_rejects _ []
  | cons c rest =>
    refine (getChar_reads_cons hfuel' hskip).ends_bind (closed_comes _) ?_
    have hlt := length_lt_of_skipped hskip
    by_cases heof : h.isEof c = true
    · simp only [heof, if_pos]
      exact error_rejects _ rest
    · simp only [heof]
      by_cases hslash : c = byte '/'
      · simp only [hslash]
        exact commentBody_line (by omega)
      · by_cases hstar : c = byte '*'
        · simp only [hstar]
          exact commentBody_block (by omega)
        · simp only [commentBody, if_neg hslash, if_neg hstar]
          exact error_rejects _ rest

/-! ## The law -/

theorem behindLine_append {pre : List UInt8} (hpre : ∀ c ∈ pre, c ≠ byte '\n') (rest : List UInt8) :
    behindLine (pre ++ rest) = behindLine rest := by
  rw [behindLine, List.dropWhile_append_of_pos (by simpa using hpre), behindLine]

theorem behindLine_eq_self_iff : behindLine rest = rest ↔ rest = [] := by
  constructor
  · intro heq
    cases rest with
    | nil => rfl
    | cons c rest =>
      have hlen := congrArg List.length heq
      have hle := List.length_dropWhile_le (fun c => decide (c ≠ byte '\n')) (c :: rest)
      rw [behindLine, List.length_tail, List.length_cons] at hlen
      rw [List.length_cons] at hle
      omega
  · rintro rfl
    rfl

/-- What is not in the line is its first such character, or comes behind it. -/
theorem eq_or_behind {p pre q : List UInt8} (heq : pre ++ x :: rest = p ++ c :: q)
    (hpre : ∀ c ∈ pre, inLine h c = true) (hc : ¬ inLine h c = true) :
    p = pre ∧ c = x ∧ q = rest ∨ ∃ r, p = pre ++ x :: r := by
  rcases List.append_eq_append_iff.mp heq with ⟨r, hp, hr⟩ | ⟨r, hp, hr⟩
  · cases r with
    | nil =>
      obtain ⟨rfl, rfl⟩ := List.cons.inj hr
      exact .inl ⟨by rw [hp, List.append_nil], rfl, rfl⟩
    | cons y r =>
      obtain ⟨rfl, -⟩ := List.cons.inj hr
      exact .inr ⟨r, hp⟩
  · cases r with
    | nil =>
      obtain ⟨rfl, rfl⟩ := List.cons.inj hr
      exact .inl ⟨by rw [hp, List.append_nil], rfl, rfl⟩
    | cons y r =>
      obtain ⟨rfl, -⟩ := List.cons.inj hr
      exact absurd (hpre c (by rw [hp]; simp)) hc

theorem not_inLine_of_isEof (hc : h.isEof c = true) : ¬ inLine h c = true := by
  simp [inLine, hc]

section Line

variable (hpre : ∀ c ∈ pre, inLine h c = true)

include hpre

theorem behindLine_line (rest : List UInt8) : behindLine (pre ++ rest) = behindLine rest := by
  refine behindLine_append (fun c hc => ?_) rest
  have hin := hpre c hc
  simp only [inLine, bne_iff_ne, ne_eq, Bool.and_eq_true] at hin
  exact hin.1

/-- A last line. -/
theorem lineRight_last : h.LineRight pre ↔ h.charSigned = true := by
  constructor
  · rintro ⟨hor, -⟩
    refine hor.resolve_right fun hmem => ?_
    have hin := hpre _ hmem
    simp [inLine] at hin
  · refine fun hs => ⟨.inl hs, ?_⟩
    rintro p c rest rfl heof
    exact absurd (hpre c (by simp)) (not_inLine_of_isEof heof)

/-- A line with its end. -/
theorem lineRight_newline (rest : List UInt8) : h.LineRight (pre ++ byte '\n' :: rest) := by
  refine ⟨.inr (by simp), fun p c q heq heof => ?_⟩
  rcases eq_or_behind heq hpre (not_inLine_of_isEof heof) with ⟨-, rfl, -⟩ | ⟨r, rfl⟩
  · simp [Host.isEof, byte, eof] at heof
  · exact .inl (by simp)

/-- A line with a byte in it that is taken for `EOF`. -/
theorem lineRight_isEof (hx : h.isEof x = true) (rest : List UInt8) :
    h.LineRight (pre ++ x :: rest) ↔ rest = [] := by
  constructor
  · rintro ⟨-, hall⟩
    refine (hall pre x rest rfl hx).resolve_left fun hmem => ?_
    have hin := hpre _ hmem
    simp [inLine] at hin
  · rintro rfl
    refine ⟨.inl (isEof_iff.mp hx).1, fun p c q heq heof => .inr ?_⟩
    rcases eq_or_behind heq hpre (not_inLine_of_isEof heof) with ⟨-, -, hq⟩ | ⟨r, rfl⟩
    · exact hq
    · have hlen := congrArg List.length heq
      simp at hlen

end Line

theorem lineVerdict_iff :
    lineVerdict h text = some (some (behindLine text)) ↔ h.LineRight text := by
  have hsplit : text = text.takeWhile (inLine h) ++ text.dropWhile (inLine h) :=
    List.takeWhile_append_dropWhile.symm
  have hpre : ∀ c ∈ text.takeWhile (inLine h), inLine h c = true :=
    fun c hc => List.mem_takeWhile_imp hc
  rw [lineVerdict]
  generalize text.takeWhile (inLine h) = pre at hsplit hpre
  cases hend : text.dropWhile (inLine h) with
  | nil =>
    have hbehind : behindLine (pre ++ []) = behindLine [] := behindLine_line hpre []
    rw [hend] at hsplit
    rw [hsplit, hbehind, List.append_nil, lineRight_last hpre]
    cases h.charSigned with
    | false => simp
    | true => exact iff_of_true rfl rfl
  | cons x rest =>
    have hx : ¬ inLine h x = true := by
      have hhead := List.head?_dropWhile_not (inLine h) text
      rw [hend] at hhead
      simpa using hhead
    rw [hend] at hsplit
    simp only [hsplit, Option.some_inj, behindLine_line hpre]
    by_cases hnl : x = byte '\n'
    · subst hnl
      have hbehind : behindLine (byte '\n' :: rest) = rest := by
        rw [behindLine, List.dropWhile_cons_of_neg (by simp), List.tail_cons]
      exact iff_of_true hbehind.symm (lineRight_newline hpre rest)
    · have heof : h.isEof x = true := by simpa [inLine, hnl] using hx
      have hbehind : behindLine (x :: rest) = behindLine rest := by
        rw [behindLine, List.dropWhile_cons_of_pos (by simp [hnl]), behindLine]
      rw [hbehind, eq_comm, behindLine_eq_self_iff, lineRight_isEof hpre heof]

/-- A line comment is never an error. -/
theorem lineVerdict_ne (text : List UInt8) : lineVerdict h text ≠ some none := by
  rw [lineVerdict]
  cases text.dropWhile (inLine h) with
  | nil => cases h.charSigned <;> simp
  | cons x rest => simp

theorem scanBlock_eq_some_iff : h.scanBlock false text = some (c, rest) ↔
    ∃ pre, h.FirstStop 0 text pre c rest :=
  Host.scanBlock_eq_some_iff 0

theorem blockVerdict_accepts_iff : blockVerdict h text = some (some rest) ↔
    ∃ pre, h.FirstStop 0 text pre (byte '/') rest := by
  rw [← scanBlock_eq_some_iff, blockVerdict]
  cases hscan : h.scanBlock false text with
  | none => cases h.charSigned <;> simp
  | some r =>
    obtain ⟨c, rest'⟩ := r
    by_cases hc : c = byte '/'
    · simp [hc]
    · simp [hc]

theorem blockVerdict_rejects_iff : blockVerdict h text = some none ↔ h.Unclosed text := by
  have hunclosed : h.Unclosed text ↔
      h.charSigned = true ∧ ∀ rest, h.scanBlock false text ≠ some (byte '/', rest) := by
    refine and_congr_right fun _ => ⟨fun hall rest hscan => ?_, fun hall pre rest hstop => ?_⟩
    · obtain ⟨pre, hstop⟩ := scanBlock_eq_some_iff.mp hscan
      exact hall pre rest hstop
    · exact hall rest (scanBlock_eq_some_iff.mpr ⟨pre, hstop⟩)
  rw [hunclosed, blockVerdict]
  cases hscan : h.scanBlock false text with
  | none => cases h.charSigned <;> simp
  | some r =>
    obtain ⟨c, rest⟩ := r
    by_cases hc : c = byte '/'
    · simp [hc]
    · obtain ⟨pre, hstop⟩ := scanBlock_eq_some_iff.mp hscan
      have hs : h.charSigned = true := by
        rcases hstop.stops with ⟨hslash, -⟩ | ⟨heof, -⟩
        · exact absurd hslash hc
        · exact (isEof_iff.mp heof).1
      simp [hc, hs]

/-- No blanks are skipped in front of a character that is not one. -/
theorem skipped_of_not_isSpace (hc : isSpace c = false) :
    skipped h.getCharSkipsSpace (c :: rest) = c :: rest := by
  unfold skipped
  split
  · exact List.dropWhile_cons_of_neg (by simp [hc])
  · rfl

theorem commentVerdict_slash (rest : List UInt8) :
    commentVerdict h (byte '/' :: rest) = lineVerdict h rest := by
  have hne : h.isEof (byte '/') = false := by simp [Host.isEof, byte, eof]
  rw [commentVerdict, skipped_of_not_isSpace (by decide)]
  simp only [hne]
  rfl

theorem commentVerdict_star (rest : List UInt8) :
    commentVerdict h (byte '*' :: rest) = blockVerdict h rest := by
  have hne : h.isEof (byte '*') = false := by simp [Host.isEof, byte, eof]
  rw [commentVerdict, skipped_of_not_isSpace (by decide)]
  simp only [hne]
  rfl

/-- Neither `//` nor `/*` is there, unless blanks make it one. -/
theorem commentVerdict_rejects_iff (hslash : c ≠ byte '/') (hstar : c ≠ byte '*') :
    commentVerdict h (c :: rest) = some none ↔ h.CommentRight (c :: rest) := by
  rw [commentVerdict, Host.CommentRight, if_neg hslash, if_neg hstar]
  cases hskip : skipped h.getCharSkipsSpace (c :: rest) with
  | nil => exact iff_of_true rfl trivial
  | cons d rest' =>
    by_cases heof : h.isEof d = true
    · have hd : d = eof := (isEof_iff.mp heof).2
      refine iff_of_true (if_pos heof) ⟨by rw [hd]; decide, fun hd' => ?_⟩
      rw [hd] at hd'
      exact absurd hd' (by decide)
    · simp only [heof, Bool.false_eq_true, if_false]
      by_cases hd : d = byte '/'
      · rw [if_pos hd]
        exact iff_of_false (lineVerdict_ne rest') fun hright => hright.1 hd
      · rw [if_neg hd]
        by_cases hd' : d = byte '*'
        · rw [if_pos hd']
          exact blockVerdict_rejects_iff.trans
            ⟨fun hu => ⟨hd, fun _ => hu⟩, fun hright => hright.2 hd'⟩
        · rw [if_neg hd']
          exact iff_of_true rfl ⟨hd, fun habs => absurd habs hd'⟩

/-- A call that comes to its verdict does what it is to do just in case it is right about the
text. -/
theorem Comes.law_iff {o : Outcome Lexer Event Bool} (ho : Comes (commentVerdict h text) o) :
    CommentLaw text o ↔ h.CommentRight text := by
  cases text with
  | nil =>
    have hnil : skipped h.getCharSkipsSpace [] = [] := by
      unfold skipped
      split <;> rfl
    rw [commentVerdict, hnil] at ho
    exact iff_of_true ho trivial
  | cons c rest =>
    rw [CommentLaw]
    by_cases hslash : c = byte '/'
    · subst hslash
      rw [commentVerdict_slash] at ho
      rw [Host.CommentRight, if_pos rfl, if_pos rfl, ho.accepts_iff, lineVerdict_iff]
    · rw [if_neg hslash]
      by_cases hstar : c = byte '*'
      · subst hstar
        rw [commentVerdict_star] at ho
        rw [Host.CommentRight, if_pos rfl, if_neg hslash, if_pos rfl, Host.BlockRight]
        cases hbehind : behindBlock rest with
        | none => exact ho.rejects_iff.trans blockVerdict_rejects_iff
        | some rest' => exact (ho.accepts_iff rest').trans blockVerdict_accepts_iff
      · rw [if_neg hstar, ho.rejects_iff, commentVerdict_rejects_iff hslash hstar]

end Lexer

/-- **When `ProcessComment` skips the comment that is there.** It is right about a line just in case
nothing in it but the last byte of the file is taken for `EOF`, and a last line can be told to end;
about a block just in case the first `/` behind an odd number of stars is that of the first `*/`,
and nothing is taken for `EOF` before it; and about a `/` without a comment just in case no blanks
make it one. -/
theorem processesComment_iff (h : Host) {s : Lexer} (hsrc : ∀ chunk ∈ s.src, chunk ≠ [])
    (hslash : s.rest.head? = some (byte '/')) :
    ProcessesComment h s ↔ h.CommentRight s.rest.tail := by
  obtain ⟨text, hrest⟩ := List.head?_eq_some_iff.mp hslash
  have hcomes : ∀ fuel, s.rest.length + 1 < fuel →
      Lexer.Comes (Lexer.commentVerdict h s.rest.tail) (Lexer.processComment h fuel s) := by
    intro fuel hfuel
    rw [hrest, List.length_cons] at hfuel
    rw [hrest, List.tail_cons]
    exact Lexer.processComment_comes hfuel _ s ⟨hrest, hsrc⟩
  constructor
  · intro hall
    have hfuel : s.rest.length + 1 < s.rest.length + 2 := Nat.lt_succ_self _
    exact (hcomes _ hfuel).law_iff.mp (hall _ hfuel)
  · exact fun hright fuel hfuel => (hcomes fuel hfuel).law_iff.mpr hright

/-- A line comment, in two reads of the file. -/
theorem processesComment_iff_line :
    ProcessesComment {} { src := [bytes "//a", bytes " b\nc"] } := by
  refine (processesComment_iff {} (by decide) (by decide)).mpr
    ⟨.inl rfl, fun pre c rest heq heof => ?_⟩
  have hmem : eof ∈ bytes "a b\nc" := by
    rw [show bytes "a b\nc" = pre ++ c :: rest from heq, (isEof_iff.mp heof).2]
    simp
  exact absurd hmem (by decide)

/-- The star in front of the last one hides the `*/`. -/
theorem starred_comment_not_closed : ¬ ProcessesComment {} { src := [bytes "/***/"] } := by
  intro hall
  have haccepts : Accepts [] (Lexer.processComment {} 10 { src := [bytes "/***/"] }) :=
    hall 10 (by decide)
  exact absurd haccepts.1 (by decide)

end HcGen
