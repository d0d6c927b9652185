import OpenHarmonyMac.HcGen.Tokens

/-!
# The lines of tokens

* `linesRight_iff` — when all tokens of a file have the number of the line that they begin in
-/

namespace HcGen

open Infra Infra.Program

/-! ## The line of a token -/

def newlines (text : List UInt8) : Nat := text.count (byte '\n')

/-- The line in which `rest` begins, the end of the file. -/
def lineOf (file rest : List UInt8) : Nat := 1 + newlines (file.take (file.length - rest.length))

/-- A call of `Lex` for the file returns the token, which is not a string. -/
structure Returned (h : Host) (chunks : List (List UInt8)) (fuel : Nat) (s : Lexer)
    (token : Token) : Prop where
  enough : chunks.flatten.length + 1 < fuel
  called : Lexer.Called h fuel { src := chunks } s
  result : (Lexer.lex h fuel s).result = some (true, token)
  eof : token.type ≠ .eof
  string : token.type ≠ .string

/-- Every token has the line of its first character. -/
def LinesRight (h : Host) (chunks : List (List UInt8)) : Prop :=
  ∀ fuel s token, Returned h chunks fuel s token →
    token.lineNo = lineOf chunks.flatten (Lexer.findToken h fuel s).state.rest

/-- A number is at the front, and from it a newline is reached through digits and blanks. Only where
a chunk ends with a blank, `PeekChar` does not look further. Behind a leading zero there may be
blanks in any case, and digits if `PeekChar` skips blanks by default. -/
def Host.NewlineBehind (h : Host) : List (UInt8 × Bool) → Prop
  | [] => False
  | (c, _) :: stream =>
    (isNum c = true ∨ c = byte '+' ∨ c = byte '-') ∧
      ∃ pre last rest, stream = pre ++ (byte '\n', last) :: rest ∧ ∀ x ∈ pre,
        isBlank x.1 = true ∧ x.2 = false ∨
          isNum x.1 = true ∧ (c = byte '0' → h.peekCharSkipsSpace = true)

/-- No token that is returned is such a number. -/
def Host.NumbersClear (h : Host) (chunks : List (List UInt8)) : Prop :=
  ∀ fuel s token, Returned h chunks fuel s token →
    ¬ h.NewlineBehind (Lexer.findToken h fuel s).state.stream

namespace Lexer

variable {h : Host} {fuel : Nat} {s : Lexer} {token : Token} {c : UInt8} {last : Bool}
  {stream : List (UInt8 × Bool)} {n : Nat}

/-! ## The count of lines -/

/-- The lexer has counted the newlines that it has taken: `n` stands for all of them, and 1. -/
def Counts (n : Nat) (s : Lexer) : Prop := s.lineno + newlines s.rest = n

/-- A newline is counted a little later than it is taken. -/
def Pending (n : Nat) (chr : UInt8) (s : Lexer) : Prop :=
  s.lineno + (if chr = byte '\n' then 1 else 0) + newlines s.rest = n

theorem newlines_cons (c : UInt8) (text : List UInt8) :
    newlines (c :: text) = (if c = byte '\n' then 1 else 0) + newlines text := by
  rw [newlines, List.count_cons, newlines, Nat.add_comm]
  simp

theorem newlines_append (text text' : List UInt8) :
    newlines (text ++ text') = newlines text + newlines text' := List.count_append

theorem filled_lineno (s : Lexer) : s.filled.lineno = s.lineno := by
  unfold filled
  split <;> rfl

theorem Counts.filled (hs : s.Counts n) : s.filled.Counts n := by
  rw [Counts, filled_lineno, filled_rest]
  exact hs

theorem Pending.counts {chr : UInt8} (hs : s.Pending n chr) (hchr : chr ≠ byte '\n') :
    s.Counts n := by
  rw [Pending, if_neg hchr] at hs
  exact hs

theorem getRawChar_counts : Ensures (Counts n) getRawChar (Pending n) := by
  intro s hs chr hchr
  have hfilled := hs.filled
  rw [getRawChar_apply] at hchr ⊢
  rw [Counts, Lexer.rest] at hfilled
  cases hbuffer : s.filled.buffer with
  | nil =>
    simp only [hbuffer] at hchr hfilled ⊢
    obtain rfl := Option.some.inj hchr
    rw [Pending, if_neg (by decide), Lexer.rest, hbuffer]
    exact hfilled
  | cons c buffer =>
    simp only [hbuffer] at hchr hfilled ⊢
    obtain rfl := Option.some.inj hchr
    rw [List.cons_append, newlines_cons, ← Nat.add_assoc] at hfilled
    exact hfilled

theorem skipBlanks_lineno (buffer : List UInt8) : ∀ s : Lexer,
    (s.skipBlanks buffer).lineno = s.lineno + newlines (buffer.takeWhile isBlank) := by
  induction buffer with
  | nil => exact fun s => rfl
  | cons c buffer ih =>
    intro s
    rw [skipBlanks]
    by_cases hc : isBlank c = true
    · have hc' : (isSpace c || c == byte '\n') = true := hc
      rw [if_pos hc', ih, List.takeWhile_cons_of_pos hc, newlines_cons, ← Nat.add_assoc]
      split <;> rfl
    · have hc' : ¬ (isSpace c || c == byte '\n') = true := hc
      rw [if_neg hc', List.takeWhile_cons_of_neg hc]
      rfl

theorem steady_counts (h : Host) (fuel n : Nat) : Steady h fuel (Counts n) where
  getChar skipSpace := by
    refine getRawChar_counts.bind fun chr =>
      Ensures.bind (Q := Pending n) (Ensures.ite (fun _ => ?_) fun _ => ?_) fun chr => ?_
    · refine Ensures.loop (J := Pending n) (fun chr => ?_) fuel chr
      refine Ensures.ite (fun hspace => ?_) fun _ => Ensures.pure fun _ hs => hs
      refine Ensures.map fun s hs => getRawChar_counts s (hs.counts ?_)
      rintro rfl
      revert hspace
      decide
    · exact Ensures.pure fun _ hs => hs
    · refine Ensures.bind (Q := fun _ => Counts n) (fun s hs _ _ => ?_) fun _ => Keeps.pure _
      show Counts n (if chr = byte '\n' then _ else _)
      split
      · next hchr =>
        rw [Pending, if_pos hchr] at hs
        exact hs
      · next hchr => exact hs.counts hchr
  peekChar skipSpace := by
    intro s hs found _
    cases skipSpace with
    | false =>
      rw [peekChar_false_apply]
      exact hs.filled
    | true =>
      rw [peekChar_true_apply]
      split
      · exact hs.filled
      · obtain ⟨hbuffer, hsrc, -⟩ := skipBlanks_spec s.filled.buffer s.filled
        have hfilled := hs.filled
        rw [Counts, Lexer.rest, newlines_append,
          ← List.takeWhile_append_dropWhile (p := isBlank) (l := s.filled.buffer),
          newlines_append] at hfilled
        show Counts n (s.filled.skipBlanks s.filled.buffer)
        rw [Counts, skipBlanks_lineno, Lexer.rest, hbuffer, hsrc, newlines_append]
        omega

/-! ## Where a number ends -/

/-- The newlines of what is ahead. -/
def ahead (stream : List (UInt8 × Bool)) : Nat := newlines (stream.map Prod.fst)

theorem ahead_cons (x : UInt8 × Bool) (stream : List (UInt8 × Bool)) :
    ahead (x :: stream) = (if x.1 = byte '\n' then 1 else 0) + ahead stream :=
  newlines_cons _ _

/-- A newline is reached through blanks and characters that are accepted. -/
def Reaches (accept : UInt8 → Bool) (stream : List (UInt8 × Bool)) : Prop :=
  ∃ pre last rest, stream = pre ++ (byte '\n', last) :: rest ∧
    ∀ x ∈ pre, isBlank x.1 = true ∧ x.2 = false ∨ accept x.1 = true

variable {accept : UInt8 → Bool}

theorem reaches_newline (accept : UInt8 → Bool) (last : Bool) (stream : List (UInt8 × Bool)) :
    Reaches accept ((byte '\n', last) :: stream) :=
  ⟨[], last, stream, rfl, by simp⟩

theorem reaches_cons (hc : c ≠ byte '\n') : Reaches accept ((c, last) :: stream) ↔
    (isBlank c = true ∧ last = false ∨ accept c = true) ∧ Reaches accept stream := by
  constructor
  · rintro ⟨pre, last', rest, hsplit, hpre⟩
    cases pre with
    | nil => exact absurd (Prod.mk.inj (List.cons.inj hsplit).1).1 hc
    | cons x pre =>
      obtain ⟨rfl, rfl⟩ := List.cons.inj hsplit
      obtain ⟨hx, hpre⟩ := List.forall_mem_cons.mp hpre
      exact ⟨hx, pre, last', rest, rfl, hpre⟩
  · rintro ⟨hx, pre, last', rest, rfl, hpre⟩
    exact ⟨(c, last) :: pre, last', rest, rfl, List.forall_mem_cons.mpr ⟨hx, hpre⟩⟩

theorem ahead_collected_le (accept : UInt8 → Bool) (stream : List (UInt8 × Bool)) :
    ahead (collected accept stream).2 ≤ ahead stream := by
  induction stream with
  | nil => exact Nat.le_refl _
  | cons x stream ih =>
    obtain ⟨c, last⟩ := x
    rw [collected, ahead_cons]
    split
    · cases last with
      | true => exact Nat.le_add_left _ _
      | false => exact Nat.le_add_left_of_le ih
    · split
      · exact Nat.le_add_left_of_le ih
      · exact Nat.le_of_eq (ahead_cons _ _)

/-- No newline is skipped, unless one is reached. -/
theorem ahead_collected (haccept : ∀ c, isBlank c = true → accept c = false)
    (stream : List (UInt8 × Bool)) :
    ahead (collected accept stream).2 = ahead stream ↔ ¬ Reaches accept stream := by
  induction stream with
  | nil => exact iff_of_true rfl (by rintro ⟨pre, last, rest, hsplit, -⟩; simp at hsplit)
  | cons x stream ih =>
    obtain ⟨c, last⟩ := x
    have hle := ahead_collected_le accept stream
    by_cases hnewline : c = byte '\n'
    · subst hnewline
      refine iff_of_false (fun heq => ?_) (not_not.mpr (reaches_newline _ _ _))
      rw [collected, if_pos (by decide), ahead_cons, if_pos rfl] at heq
      cases last with
      | true =>
        simp only [if_true] at heq
        omega
      | false =>
        simp only [Bool.false_eq_true, if_false] at heq
        omega
    · rw [reaches_cons hnewline, collected, ahead_cons, if_neg hnewline, Nat.zero_add]
      by_cases hblank : isBlank c = true
      · rw [if_pos hblank]
        cases last with
        | true => exact iff_of_true rfl fun hreach => by simp [haccept c hblank] at hreach
        | false => simpa [hblank] using ih
      · rw [if_neg hblank]
        by_cases hc : accept c = true
        · rw [if_pos hc]
          simpa [hc] using ih
        · rw [if_neg hc, ahead_cons, if_neg hnewline, Nat.zero_add]
          exact iff_of_true rfl fun hreach => by simp [hblank, hc] at hreach

/-- What is ahead behind a number with a leading zero, where `found` is the next character. -/
def zeroEnd (h : Host) (found : Option UInt8) (stream : List (UInt8 × Bool)) :
    List (UInt8 × Bool) :=
  match found with
  | none => stream
  | some d =>
    if isNum d then
      if h.peekCharSkipsSpace then (collected isNum stream).2
      else stream.dropWhile fun x => isNum x.1
    else if d = byte 'x' ∨ d = byte 'X' then stream.tail.dropWhile fun x => isDigit 16 x.1
    else if d = byte 'b' then stream.tail.dropWhile fun x => isDigit 2 x.1
    else stream

/-- What is ahead behind a number that begins with `c`. -/
def numberEnd (h : Host) (c : UInt8) (stream : List (UInt8 × Bool)) : List (UInt8 × Bool) :=
  if c = byte '0' then zeroEnd h (peeked stream).1 (peeked stream).2
  else (collected isNum stream).2

theorem lexBehindZero_ahead (h : Host) (hfuel : stream.length < fuel) {found : Option UInt8}
    (hfound : ∀ c, found = some c → ∃ last stream', stream = (c, last) :: stream') :
    ∃ value r, ReadsAhead (lexBehindZero h fuel found) stream (value, r)
      (zeroEnd h found stream) := by
  unfold zeroEnd
  cases found with
  | none => exact ⟨_, _, lexBehindZero_ends (by simp)⟩
  | some d =>
    by_cases hnum : isNum d = true
    · have hcollect : ∃ value, ReadsAhead (collect h fuel h.peekCharSkipsSpace isNum []) stream
          value (if h.peekCharSkipsSpace then (collected isNum stream).2
            else stream.dropWhile fun x => isNum x.1) := by
        cases h.peekCharSkipsSpace with
        | true => exact ⟨_, collect_skipping_ahead hfuel []⟩
        | false => exact ⟨_, collect_ahead hfuel []⟩
      obtain ⟨value, hread⟩ := hcollect
      simp only [if_pos hnum]
      exact ⟨_, _, lexBehindZero_digit hnum hread⟩
    · obtain ⟨last, rest, rfl⟩ := hfound d rfl
      have hrest : rest.length < fuel := Nat.lt_of_succ_lt hfuel
      simp only [if_neg hnum]
      by_cases hhex : d = byte 'x' ∨ d = byte 'X'
      · rw [if_pos hhex]
        exact ⟨_, _, lexBehindZero_letter hrest (.inl ⟨hhex, rfl⟩)⟩
      · rw [if_neg hhex]
        by_cases hb : d = byte 'b'
        · rw [if_pos hb]
          exact ⟨_, _, lexBehindZero_letter hrest (.inr ⟨hb, rfl⟩)⟩
        · obtain ⟨hx, hX⟩ := not_or.mp hhex
          rw [if_neg hb]
          refine ⟨_, _, lexBehindZero_ends fun d' hd' => ?_⟩
          obtain rfl := Option.some.inj hd'
          exact ⟨by simpa using hnum, hx, hX, hb⟩

theorem lexNumber_ahead (h : Host) (hfuel : stream.length < fuel) (c : UInt8) :
    ∃ value r, ReadsAhead (lexNumber h fuel c) stream (value, r) (numberEnd h c stream) := by
  unfold numberEnd
  by_cases hzero : c = byte '0'
  · subst hzero
    obtain ⟨value, r, hread⟩ := lexBehindZero_ahead h
      (Nat.lt_of_le_of_lt (length_peeked_le stream) hfuel) (peeked_found stream)
    rw [if_pos rfl, lexNumber_zero]
    exact ⟨value, r, (peekChar_true_ahead stream).bind hread⟩
  · rw [if_neg hzero]
    exact ⟨_, _, lexNumber_reads hzero (collect_skipping_ahead hfuel [c])⟩

/-- What is not a newline does not count. -/
theorem ahead_dropWhile (haccept : accept (byte '\n') = false) (stream : List (UInt8 × Bool)) :
    ahead (stream.dropWhile fun x => accept x.1) = ahead stream := by
  induction stream with
  | nil => rfl
  | cons x stream ih =>
    by_cases hx : accept x.1 = true
    · have hne : x.1 ≠ byte '\n' := by
        intro heq
        rw [heq, haccept] at hx
        cases hx
      rw [List.dropWhile_cons, if_pos hx, ih, ahead_cons, if_neg hne, Nat.zero_add]
    · rw [List.dropWhile_cons, if_neg hx]

/-- What is accepted behind a leading zero, or behind another first character. -/
def goesOn (h : Host) (c d : UInt8) : Bool := isNum d && (c != byte '0' || h.peekCharSkipsSpace)

theorem goesOn_iff {d : UInt8} : goesOn h c d = true ↔
    isNum d = true ∧ (c = byte '0' → h.peekCharSkipsSpace = true) := by
  rw [goesOn, Bool.and_eq_true, Bool.or_eq_true, bne_iff_ne, ne_eq, imp_iff_not_or]

theorem newlineBehind_iff : h.NewlineBehind ((c, last) :: stream) ↔
    (isNum c = true ∨ c = byte '+' ∨ c = byte '-') ∧ Reaches (goesOn h c) stream := by
  simp only [Host.NewlineBehind, Reaches, goesOn_iff]

theorem goesOn_of_isBlank (h : Host) (c : UInt8) :
    ∀ d, isBlank d = true → goesOn h c d = false := by
  intro d hd
  rw [goesOn, not_isNum_of_isBlank hd, Bool.false_and]

/-- A letter behind the zero, and digits of its base. -/
theorem ahead_letter {base : Nat} (hbase : base = 16 ∨ base = 2) {d : UInt8} (hd : d ≠ byte '\n')
    {rest : List (UInt8 × Bool)} :
    ahead ((((d, last) :: rest).tail).dropWhile fun x => isDigit base x.1) =
      ahead ((d, last) :: rest) := by
  have hnewline : isDigit base (byte '\n') = false := by
    rcases hbase with rfl | rfl
    · decide
    · decide
  rw [List.tail_cons, ahead_dropWhile hnewline, ahead_cons, if_neg hd, Nat.zero_add]

/-- Behind a leading zero, where nothing more is accepted or what is found is a digit. -/
theorem ahead_zeroEnd (h : Host) {found : Option UInt8}
    (hfound : ∀ d, found = some d → ∃ last rest, stream = (d, last) :: rest)
    (hstop : ∀ d, found = some d → isNum d = true → h.peekCharSkipsSpace = false) :
    ahead (zeroEnd h found stream) = ahead stream := by
  unfold zeroEnd
  cases found with
  | none => rfl
  | some d =>
    obtain ⟨last, rest, rfl⟩ := hfound d rfl
    simp only
    split
    · next hnum =>
      rw [hstop d rfl hnum, if_neg Bool.false_ne_true]
      exact ahead_dropWhile (by decide) _
    · split
      · next hhex =>
        refine ahead_letter (.inl rfl) ?_
        rcases hhex with rfl | rfl
        · decide
        · decide
      · split
        · next hb => exact ahead_letter (.inr rfl) (by rw [hb]; decide)
        · rfl

/-- **The newlines that a number takes.** -/
theorem ahead_numberEnd (h : Host) (c : UInt8) (stream : List (UInt8 × Bool)) :
    ahead (numberEnd h c stream) = ahead (collected (goesOn h c) stream).2 := by
  unfold numberEnd
  by_cases hzero : c = byte '0'
  · have hgoes : ∀ d, goesOn h c d = (isNum d && h.peekCharSkipsSpace) := by
      intro d
      simp [goesOn, hzero]
    rw [if_pos hzero]
    rcases collected_peeked (goesOn h c) stream with
      ⟨d, last, stream', hpeeked, hd, -, hcollected⟩ | ⟨hstop, hcollected⟩
    · rw [hgoes, Bool.and_eq_true] at hd
      have hblank : isBlank d = false := peeked_clear stream d (by rw [hpeeked])
      have haccept : isNum = goesOn h c := by
        funext d
        rw [hgoes, hd.2, Bool.and_true]
      rw [hpeeked, hcollected]
      simp only [zeroEnd, if_pos hd.1, if_pos hd.2]
      rw [collected, if_neg (by simp [hblank]), if_pos hd.1, haccept]
    · rw [hcollected]
      refine ahead_zeroEnd h (peeked_found stream) fun d hd hnum => ?_
      have hnot := hstop d hd
      rwa [hgoes, hnum, Bool.true_and] at hnot
  · have haccept : goesOn h c = isNum := by
      funext d
      simp [goesOn, hzero]
    rw [if_neg hzero, haccept]

/-! ## The line that a token is given -/

/-- A token that is returned has the line of the lexer, unless it is that of the end of the file. -/
def HasLine (r : Bool × Token) (s : Lexer) : Prop :=
  r.1 = true → r.2.type ≠ .eof → r.2.lineNo = s.lineno

theorem hasLine_false (token : Token) (s : Lexer) : HasLine (false, token) s := by
  simp [HasLine]

/-- The line is taken over at the end. -/
theorem state_hasLine {P : Lexer → Prop} {f : Nat → Token}
    (hf : ∀ lineno, (f lineno).lineNo = lineno) :
    Ensures P (state >>= fun s => pure (true, f s.lineno) : LexM _) HasLine := by
  rintro s - r hr
  obtain rfl := Option.some.inj hr
  exact fun _ _ => hf s.lineno

theorem error_hasLine {P : Lexer → Prop} (text : String) (token : Token) :
    Ensures P (error text >>= fun _ => pure (false, token)) HasLine :=
  Ensures.bind (Q := fun _ _ => True) (fun _ _ _ _ => trivial) fun _ =>
    Ensures.pure fun s _ => hasLine_false token s

/-- What is done before does not matter. -/
theorem hasLine_after {α : Type} {P : Lexer → Prop} {m : LexM α} {f : α → LexM (Bool × Token)}
    (hf : ∀ a, Ensures (fun _ => True) (f a) HasLine) : Ensures P (m >>= f) HasLine :=
  Ensures.bind (Q := fun _ _ => True) (fun _ _ _ _ => trivial) hf

theorem lexFromLiteral_lineNo : Ensures (fun _ => True) (lexFromLiteral h fuel token)
    fun token s => token.lineNo = s.lineno := by
  refine Ensures.bind (Q := fun _ _ => True) (fun _ _ _ _ => trivial) fun value => ?_
  rintro s - r hr
  obtain rfl := Option.some.inj hr
  rfl

theorem lexFromNumber_hasLine :
    Ensures (fun _ => True) (lexFromNumber h fuel token) HasLine := by
  refine hasLine_after ?_
  rintro ⟨c, -⟩
  refine hasLine_after ?_
  rintro ⟨value, v, errno⟩
  exact Ensures.ite (fun _ => error_hasLine _ _) fun _ => state_hasLine fun _ => rfl

theorem lexFound_hasLine (token : Token) (c : UInt8) :
    Ensures (fun _ => True) (lexFound h fuel token c) HasLine := by
  refine Ensures.ite (fun _ => ?_) fun _ => Ensures.ite (fun _ => ?_) fun _ =>
    Ensures.ite (fun _ => lexFromNumber_hasLine) fun _ => ?_
  · refine hasLine_after fun _ => lexFromLiteral_lineNo.bind fun token => ?_
    refine Ensures.ite (fun _ => Ensures.pure fun s _ => hasLine_false token s) fun _ => ?_
    exact Ensures.pure fun s hs _ _ => hs
  · exact Ensures.map fun s hs token htoken _ _ => lexFromLiteral_lineNo s hs token htoken
  · refine Ensures.ite (fun _ => ?_) fun _ => Ensures.ite (fun _ => ?_) fun _ =>
      Ensures.ite (fun _ => lexFromNumber_hasLine) fun _ => Ensures.ite (fun _ => ?_) fun _ =>
        error_hasLine _ _
    · exact hasLine_after fun _ => state_hasLine fun _ => rfl
    · refine hasLine_after fun _ => hasLine_after ?_
      rintro (_ | ⟨value, c⟩)
      · exact Ensures.pure fun s _ => hasLine_false token s
      · exact Ensures.ite (fun _ => error_hasLine _ _) fun _ => state_hasLine fun _ => rfl
    · exact Ensures.pure fun s _ _ htype => absurd rfl htype

/-! ## The newlines that a token takes -/

/-- The token that is returned, if it is not a string, has taken no newline just in case none is
reached from a number. -/
def TakesNoLine (h : Host) (stream : List (UInt8 × Bool))
    (o : Outcome Lexer Event (Bool × Token)) : Prop :=
  ∀ token, o.result = some (true, token) → token.type ≠ .eof → token.type ≠ .string →
    (newlines o.state.rest = ahead stream ↔ ¬ h.NewlineBehind stream)

theorem closed_takesNoLine : Closed Event.Fine (TakesNoLine h stream) := fun _ _ _ _ _ ho => ho

/-- A character that no number begins with. -/
def NoNumber (c : UInt8) : Prop := ¬ (isNum c = true ∨ c = byte '+' ∨ c = byte '-')

theorem takesNoLine_of_eq {o : Outcome Lexer Event (Bool × Token)} (hc : NoNumber c)
    (heq : newlines o.state.rest = ahead ((c, last) :: stream)) :
    TakesNoLine h ((c, last) :: stream) o := by
  intro token _ _ _
  exact iff_of_true heq fun hbehind => hc hbehind.1

theorem Ahead.newlines (hs : s.Ahead stream) : newlines s.rest = ahead stream := by
  rw [← stream_map_fst, hs.stream]
  rfl

theorem lexFromNumber_takesNoLine (hfuel : stream.length < fuel) (token : Token)
    (hc : isNum c = true ∨ c = byte '+' ∨ c = byte '-') :
    Ends Ahead (lexFromNumber h fuel token) ((c, last) :: stream)
      (TakesNoLine h ((c, last) :: stream)) := by
  obtain ⟨value, r, hread⟩ := lexNumber_ahead h hfuel c
  have hne : c ≠ byte '\n' := by
    rcases hc with hnum | rfl | rfl
    · rintro rfl
      revert hnum
      decide
    · decide
    · decide
  intro s hs token' hresult _ _
  have hconverts := lexFromNumber_converts token hread s hs
  unfold Converts at hconverts
  split at hconverts
  · obtain ⟨⟨token'', hfalse⟩, -⟩ := hconverts
    rw [hfalse] at hresult
    cases hresult
  · have hnewlines : newlines (lexFromNumber h fuel token s).state.rest =
        ahead (numberEnd h c stream) := by
      rw [hconverts.2.1]
      rfl
    rw [hnewlines, ahead_numberEnd, ahead_cons, if_neg hne, Nat.zero_add,
      ahead_collected (goesOn_of_isBlank h c)]
    rw [newlineBehind_iff, and_iff_right hc]

/-- A character that is taken, and no more. -/
theorem punctuation_takesNoLine (hc : NoNumber c) (hne : c ≠ byte '\n') {f : Lexer → Bool × Token} :
    Ends Ahead (consumeChar h fuel >>= fun _ => state >>= fun s => pure (f s))
      ((c, last) :: stream) (TakesNoLine h ((c, last) :: stream)) := by
  refine consumeChar_ahead.ends_bind closed_takesNoLine fun s hs => ?_
  refine takesNoLine_of_eq hc ?_
  rw [ahead_cons, if_neg hne, Nat.zero_add]
  exact hs.newlines

/-- The text of a literal. -/
def inLiteral (c : UInt8) : Bool :=
  !isSpace c && (isalnum c || c == byte '_' || c == byte '.' || c == byte '\\')

theorem lexFromLiteral_ahead (hfuel : stream.length < fuel) (token : Token) :
    Ends Ahead (lexFromLiteral h fuel token) stream fun o =>
      (∃ token, o.result = some token) ∧
        o.state.Ahead (stream.dropWhile fun x => inLiteral x.1) := by
  have hread : ReadsAhead (collect h fuel false inLiteral []) stream _ _ := collect_ahead hfuel []
  refine hread.ends_bind (fun _ _ _ _ _ ho => ho) ?_
  exact fun s hs => ⟨⟨_, rfl⟩, hs⟩

theorem lexInclude_takesNoLine (hfuel : stream.length < fuel) (token : Token) (hc : NoNumber c)
    (hne : c ≠ byte '\n') :
    Ends Ahead (lexInclude h fuel token) ((c, last) :: stream)
      (TakesNoLine h ((c, last) :: stream)) := by
  refine consumeChar_ahead.ends_bind closed_takesNoLine fun s hs => takesNoLine_of_eq hc ?_
  obtain ⟨⟨token', hresult⟩, hahead⟩ := lexFromLiteral_ahead hfuel token s hs
  rw [bind_of_some hresult, ahead_cons, if_neg hne, Nat.zero_add,
    ← ahead_dropWhile (show inLiteral (byte '\n') = false by decide) stream, ← hahead.newlines]
  dsimp only
  split <;> rfl

theorem lexFromLiteral_takesNoLine (hfuel : stream.length + 1 < fuel) (token : Token)
    (hc : NoNumber c) :
    Ends Ahead ((true, ·) <$> lexFromLiteral h fuel token) ((c, last) :: stream)
      (TakesNoLine h ((c, last) :: stream)) := by
  refine fun s hs => takesNoLine_of_eq hc ?_
  obtain ⟨-, hahead⟩ :=
    lexFromLiteral_ahead (show ((c, last) :: stream).length < fuel from hfuel) token s hs
  rw [map_apply, ← ahead_dropWhile (show inLiteral (byte '\n') = false by decide)]
  exact hahead.newlines

/-- A string is a string. -/
theorem lexFromString_string : Ensures (fun _ => True) (lexFromString h fuel token)
    fun r _ => r.1 = true → r.2.type = .string := by
  refine Ensures.bind (Q := fun _ _ => True) (fun _ _ _ _ => trivial) fun _ =>
    Ensures.bind (Q := fun _ _ => True) (fun _ _ _ _ => trivial) ?_
  rintro (_ | ⟨value, c⟩)
  · exact Ensures.pure fun _ _ hr => absurd hr Bool.false_ne_true
  · refine Ensures.ite (fun _ => ?_) fun _ => ?_
    · exact Ensures.bind (Q := fun _ _ => True) (fun _ _ _ _ => trivial) fun _ =>
        Ensures.pure fun _ _ hr => absurd hr Bool.false_ne_true
    · exact Ensures.bind (Q := fun _ _ => True) (fun _ _ _ _ => trivial) fun _ =>
        Ensures.pure fun _ _ _ => rfl

theorem noNumber_of_isalpha (hc : isalpha c = true) : NoNumber c := by
  have hle : 65 ≤ c.toNat := by
    simp [isalpha, byte, UInt8.le_iff_toNat_le] at hc
    omega
  rintro (hnum | rfl | rfl)
  · rw [isNum_iff] at hnum
    omega
  · revert hle
    decide
  · revert hle
    decide

theorem setTokenCharacter_takesNoLine (hfuel : stream.length < fuel) (token : Token)
    (hnum : ¬ isNum c = true) (hne : c ≠ byte '\n') :
    Ends Ahead (setTokenCharacter h fuel c token) ((c, last) :: stream)
      (TakesNoLine h ((c, last) :: stream)) := by
  unfold setTokenCharacter
  split
  · next hmem =>
    refine punctuation_takesNoLine ?_ hne
    rintro (hnum' | rfl | rfl)
    · exact hnum hnum'
    · revert hmem
      decide
    · revert hmem
      decide
  · split
    · intro s _ token' hresult _ hstring
      exact absurd (lexFromString_string s trivial _ hresult rfl) hstring
    · split
      · next hsign => exact lexFromNumber_takesNoLine hfuel token (.inr hsign)
      · split
        · rintro s - token' hresult heof -
          obtain rfl := (Prod.mk.inj (Option.some.inj hresult)).2
          exact absurd rfl heof
        · rintro s - token' hresult -
          cases hresult

theorem lexFound_takesNoLine (hfuel : stream.length + 1 < fuel) (token : Token)
    (hslash : c ≠ byte '/') (hblank : isBlank c = false) :
    Ends Ahead (lexFound h fuel token c) ((c, last) :: stream)
      (TakesNoLine h ((c, last) :: stream)) := by
  have hne : c ≠ byte '\n' := by
    rintro rfl
    revert hblank
    decide
  unfold lexFound
  split
  · next hinclude =>
    refine lexInclude_takesNoLine (Nat.lt_of_succ_lt hfuel) token ?_ hne
    rw [hinclude, NoNumber]
    decide
  · split
    · next halpha => exact lexFromLiteral_takesNoLine hfuel token (noNumber_of_isalpha halpha)
    · split
      · next hnum => exact lexFromNumber_takesNoLine (Nat.lt_of_succ_lt hfuel) token (.inl hnum)
      · next hnum => exact setTokenCharacter_takesNoLine (Nat.lt_of_succ_lt hfuel) token hnum hne

end Lexer

/-! ## The law -/

variable {h : Host} {chunks : List (List UInt8)} {fuel : Nat} {s : Lexer} {token : Token}

theorem lineOf_append (pre rest : List UInt8) : lineOf (pre ++ rest) rest = 1 + newlines pre := by
  rw [lineOf, List.length_append, Nat.add_sub_cancel_right, List.take_left']
  rfl

/-- The lexer that has just been opened. -/
theorem ahead_opened (hchunks : ∀ chunk ∈ chunks, chunk ≠ []) :
    ({ src := chunks } : Lexer).Ahead ({ src := chunks } : Lexer).stream where
  stream := rfl
  nonempty := hchunks

theorem length_opened (chunks : List (List UInt8)) :
    ({ src := chunks } : Lexer).stream.length = chunks.flatten.length := by
  rw [← List.length_map (f := Prod.fst), Lexer.stream_map_fst]
  rfl

/-- A token begins in the file. -/
theorem Returned.begins (hchunks : ∀ chunk ∈ chunks, chunk ≠ [])
    (hreturned : Returned h chunks fuel s token) : ∃ c,
      Lexer.Facing ({ src := chunks } : Lexer).stream c (Lexer.findToken h fuel s).state ∧
      (Lexer.lexFound h fuel (Lexer.freshToken s.lineno) c
        (Lexer.findToken h fuel s).state).result = some (true, token) := by
  have hs := hreturned.called.steady (Lexer.steady_within h fuel _)
    ⟨_, List.suffix_refl _, ahead_opened hchunks⟩
  obtain ⟨c, hfind, hfound, -⟩ := Lexer.lex_found hreturned.result hreturned.eof
  exact ⟨c, Lexer.findToken_facing s hs _ hfind c rfl, hfound⟩

/-- **One token.** -/
theorem Returned.lineNo_iff (hchunks : ∀ chunk ∈ chunks, chunk ≠ [])
    (hreturned : Returned h chunks fuel s token) :
    token.lineNo = lineOf chunks.flatten (Lexer.findToken h fuel s).state.rest ↔
      ¬ h.NewlineBehind (Lexer.findToken h fuel s).state.stream := by
  obtain ⟨c, ⟨hslash, hclear, last, stream, hsuffix, hahead⟩, hfound⟩ := hreturned.begins hchunks
  obtain ⟨henough, hcalled, hresult, heof, hstring⟩ := hreturned
  obtain ⟨_, hfind, -⟩ := Lexer.lex_found hresult heof
  have hcounts := Lexer.steady_counts h fuel (1 + newlines chunks.flatten)
  have hbefore := hcounts.findToken s (hcalled.steady hcounts rfl) _ hfind
  have hafter := hcounts.lexFound _ c _ hbefore _ hfound
  have hline := Lexer.lexFound_hasLine _ c _ trivial _ hfound rfl heof
  have hlength := hsuffix.length_le
  rw [length_opened, List.length_cons] at hlength
  have hiff := Lexer.lexFound_takesNoLine (Nat.lt_of_le_of_lt (Nat.le_succ_of_le hlength) henough)
    (Lexer.freshToken s.lineno) hslash hclear _ hahead token hfound heof hstring
  obtain ⟨pre, hpre⟩ := hsuffix
  have hfile : chunks.flatten = pre.map Prod.fst ++ (Lexer.findToken h fuel s).state.rest := by
    rw [← Lexer.stream_map_fst, hahead.stream, ← List.map_append, hpre, Lexer.stream_map_fst]
    rfl
  unfold Lexer.Counts at hbefore hafter
  rw [hahead.stream, ← hiff, hline, ← hahead.newlines]
  rw [hfile, Lexer.newlines_append] at hbefore hafter
  rw [hfile, lineOf_append]
  omega

/-- **The lines of tokens.** Every token that is not a string has the line of its first character,
just in case from no token that is a number a newline is reached through digits and blanks. -/
theorem linesRight_iff (h : Host) (hchunks : ∀ chunk ∈ chunks, chunk ≠ []) :
    LinesRight h chunks ↔ h.NumbersClear chunks :=
  forall₃_congr fun _ _ _ => forall_congr' fun hreturned => hreturned.lineNo_iff hchunks

/-- A file on two lines, without numbers. -/
theorem linesRight_iff_letters : LinesRight {} [bytes "a\n= b", bytes ";"] := by
  refine (linesRight_iff {} (by decide)).mpr fun fuel s token hreturned hbehind => ?_
  obtain ⟨c, ⟨-, -, last, stream, hsuffix, hahead⟩, -⟩ := hreturned.begins (by decide)
  rw [hahead.stream] at hbehind
  have hmem : c ∈ bytes "a\n= b;" :=
    List.mem_map_of_mem (f := Prod.fst) (hsuffix.subset List.mem_cons_self)
  have hnone : (bytes "a\n= b;").all (fun c => !isNum c && c != byte '+' && c != byte '-') = true :=
    rfl
  have hc := List.all_eq_true.mp hnone c hmem
  rcases hbehind.1 with hnum | rfl | rfl
  · simp [hnum] at hc
  · simp at hc
  · simp at hc

/-- The number at the end of the first line is given the second one. -/
theorem number_line_not_right : ¬ LinesRight {} [bytes "1\n;"] := by
  intro hright
  have hline := hright 10 { src := [bytes "1\n;"] }
    { type := .number, numval := 1, strval := [], lineNo := 2 }
    ⟨by decide, .first, by decide, by decide, by decide⟩
  exact absurd hline (by decide)

end HcGen
