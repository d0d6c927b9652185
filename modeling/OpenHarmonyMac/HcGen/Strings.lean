import OpenHarmonyMac.HcGen.Tokens

/-!
# String literals

`LexFromString` is called where `PeekChar` has found a quotation mark.

* `lexesString_iff` — when `Lex` undoes the quoting of the string that is there
-/

namespace HcGen

open Infra Infra.Program

/-! ## What a string literal is -/

/-- A string with its quotation marks escaped. -/
def escaped (value : List UInt8) : List UInt8 :=
  value.flatMap fun c => if c = byte '"' then [byte '\\', c] else [c]

/-- The literal of a string. -/
def quoted (value : List UInt8) : List UInt8 := byte '"' :: escaped value ++ [byte '"']

/-- Before the closing quotation mark the file ends, or there is an escape of another character. -/
def Malformed (text : List UInt8) : Prop :=
  ∃ value, byte '\\' ∉ value ∧ (text = byte '"' :: escaped value ∨
    ∃ rest, text = byte '"' :: escaped value ++ byte '\\' :: rest ∧ rest.head? ≠ some (byte '"'))

/-- The string is taken without an error, and `text` comes next. -/
def TakesString (value text : List UInt8) (o : Outcome Lexer Event (Bool × Token)) : Prop :=
  (∃ token, o.result = some (true, token) ∧ token.type = .string ∧ token.strval = value) ∧
    o.state.rest = text ∧ ∀ e ∈ o.trace, e.Fine

/-- With enough fuel, the call of `Lex` from here undoes the quoting of a literal, and reports an
error for what is not one. -/
structure LexesString (h : Host) (s : Lexer) : Prop where
  undoes : ∀ value rest, byte '\\' ∉ value → s.rest = quoted value ++ rest →
    ∀ fuel, s.rest.length + 1 < fuel → TakesString value rest (Lexer.lex h fuel s)
  refuses : Malformed s.rest → ∀ fuel, s.rest.length + 1 < fuel → Refuses (Lexer.lex h fuel s)

/-- Where the end of the file can be told, no byte of the string is taken for it. Where it cannot,
the file does not end in the string. -/
def Host.StringRight (h : Host) (text : List UInt8) : Prop :=
  if h.charSigned then
    ∀ value rest, byte '\\' ∉ value → text = quoted value ++ rest → eof ∉ value
  else ∀ value, byte '\\' ∉ value → text ≠ byte '"' :: escaped value

/-! ## The scanner of a string -/

/-- What a string literal comes to: an error, or the string and what follows it; `none` if the loop
does not end. -/
abbrev StringVerdict := Option (Option (List UInt8 × List UInt8))

/-- The loop of `LexFromString`, behind `value`. -/
def Host.scanString (h : Host) (value : List UInt8) : List UInt8 → StringVerdict
  | [] => if h.charSigned then some none else none
  | c :: text =>
    if h.isEof c then some none
    else if c = byte '"' then some (some (value, text))
    else if c = byte '\\' then
      match text with
      | [] => some none
      | d :: text => if d = byte '"' then h.scanString (value ++ [d]) text else some none
    else h.scanString (value ++ [c]) text

variable {h : Host} {value text rest : List UInt8} {c d : UInt8}

@[simp] theorem escaped_nil : escaped [] = [] := rfl

theorem escaped_cons (c : UInt8) (value : List UInt8) :
    escaped (c :: value) = (if c = byte '"' then [byte '\\', c] else [c]) ++ escaped value := rfl

theorem escaped_mark (value : List UInt8) :
    escaped (byte '"' :: value) = byte '\\' :: byte '"' :: escaped value := rfl

theorem escaped_other (hc : c ≠ byte '"') (value : List UInt8) :
    escaped (c :: value) = c :: escaped value := by
  rw [escaped_cons, if_neg hc]
  rfl

theorem mem_escaped (hc : c ∈ value) : c ∈ escaped value := by
  refine List.mem_flatMap.mpr ⟨c, hc, ?_⟩
  split
  · exact List.mem_cons_of_mem _ List.mem_cons_self
  · exact List.mem_cons_self

theorem not_isEof_mark (h : Host) : h.isEof (byte '"') = false := by
  simp [Host.isEof, byte, eof]

theorem not_isEof_backslash (h : Host) : h.isEof (byte '\\') = false := by
  simp [Host.isEof, byte, eof]

theorem scanString_of_isEof (heof : h.isEof c = true) (value text : List UInt8) :
    h.scanString value (c :: text) = some none := by
  rw [Host.scanString.eq_def]
  exact if_pos heof

theorem scanString_mark (value text : List UInt8) :
    h.scanString value (byte '"' :: text) = some (some (value, text)) := by
  rw [Host.scanString.eq_def]
  simp only [not_isEof_mark, Bool.false_eq_true, if_false, if_true]

theorem scanString_escape (value text : List UInt8) :
    h.scanString value (byte '\\' :: text) =
      match text with
      | [] => some none
      | d :: text => if d = byte '"' then h.scanString (value ++ [d]) text else some none := by
  rw [Host.scanString.eq_def]
  simp only [not_isEof_backslash, Bool.false_eq_true, if_false, if_true,
    show byte '\\' ≠ byte '"' by decide]

theorem scanString_other (heof : h.isEof c = false) (hmark : c ≠ byte '"')
    (hescape : c ≠ byte '\\') (value text : List UInt8) :
    h.scanString value (c :: text) = h.scanString (value ++ [c]) text := by
  rw [Host.scanString.eq_def]
  simp only [heof, hmark, hescape, Bool.false_eq_true, if_false]

/-- The scanner runs along an escaped string. -/
theorem scanString_escaped (hescape : byte '\\' ∉ value) (heof : ∀ c ∈ value, h.isEof c = false)
    (before rest : List UInt8) :
    h.scanString before (escaped value ++ rest) = h.scanString (before ++ value) rest := by
  induction value generalizing before with
  | nil => rw [escaped_nil, List.nil_append, List.append_nil]
  | cons c value ih =>
    obtain ⟨hne, hescape⟩ := List.ne_and_not_mem_of_not_mem_cons hescape
    have ih := ih hescape fun d hd => heof d (List.mem_cons_of_mem _ hd)
    rw [List.append_cons]
    by_cases hmark : c = byte '"'
    · subst hmark
      rw [escaped_mark, List.cons_append, List.cons_append, scanString_escape]
      exact (if_pos rfl).trans (ih _)
    · rw [escaped_other hmark, List.cons_append,
        scanString_other (heof c List.mem_cons_self) hmark (Ne.symm hne), ih]

/-- It stops where a byte is taken for `EOF`. -/
theorem scanString_eof (hescape : byte '\\' ∉ value) (heof : ∃ c ∈ value, h.isEof c = true)
    (before rest : List UInt8) : h.scanString before (escaped value ++ rest) = some none := by
  induction value generalizing before with
  | nil => simp at heof
  | cons c value ih =>
    obtain ⟨hne, hescape⟩ := List.ne_and_not_mem_of_not_mem_cons hescape
    have hrest : h.isEof c = false → ∃ d ∈ value, h.isEof d = true := by
      intro hc
      obtain ⟨d, hd, hdeof⟩ := heof
      rcases List.mem_cons.mp hd with rfl | hd
      · rw [hc] at hdeof
        cases hdeof
      · exact ⟨d, hd, hdeof⟩
    have ih := ih hescape
    by_cases hmark : c = byte '"'
    · subst hmark
      rw [escaped_mark, List.cons_append, List.cons_append, scanString_escape]
      exact (if_pos rfl).trans (ih (hrest (not_isEof_mark h)) _)
    · rw [escaped_other hmark, List.cons_append]
      cases hc : h.isEof c with
      | true => exact scanString_of_isEof hc _ _
      | false => rw [scanString_other hc hmark (Ne.symm hne), ih (hrest hc)]

/-! ## `LexFromString` -/

namespace Lexer

variable {fuel n : Nat} {token : Token}

/-- How the loop ends by the verdict. -/
def Stops (v : StringVerdict) (o : Outcome Lexer Event (Option (List UInt8 × UInt8))) : Prop :=
  match v with
  | none => o.result = none
  | some none =>
    (∃ value, o.result = some (some (value, eof))) ∨
      o.result = some none ∧ ∃ e ∈ o.trace, ¬ e.Fine
  | some (some (value, rest)) =>
    o.result = some (some (value, byte '"')) ∧ o.state.Before rest ∧ ∀ e ∈ o.trace, e.Fine

theorem closed_stops (v : StringVerdict) : Closed Event.Fine (Stops v) := by
  match v with
  | none => exact closed_outOfFuel
  | some (some (value, rest)) => exact closed_yields
  | some none =>
    rintro r s l l' - (hvalue | ⟨hr, e, he, hfine⟩)
    · exact .inl hvalue
    · exact .inr ⟨hr, e, List.mem_append_right _ he, hfine⟩

theorem getChar_reads_false (hfuel : (c :: text).length + 1 < fuel) :
    Reads (getChar h fuel false) (c :: text) (c, !h.isEof c) text :=
  getChar_reads false hfuel

theorem getChar_reads_false_nil (hfuel : 1 < fuel) :
    Reads (getChar h fuel false) [] (eof, !h.isEof eof) [] :=
  getChar_reads false hfuel

/-- Any other character is appended. -/
theorem stringBody_other (heof : h.isEof c = false) (hmark : c ≠ byte '"')
    (hescape : c ≠ byte '\\') {text' : List UInt8}
    (hread : Reads (getChar h fuel false) text (c, !h.isEof c) text') :
    Reads (stringBody h fuel value) text (.inl (value ++ [c])) text' := by
  refine hread.bind ?_
  simp only [heof, hmark, hescape, Bool.not_false, Bool.true_and, bne_iff_ne, ne_eq,
    not_false_eq_true, if_true, if_false]
  exact Yields.pure _ _

/-- The loop ends at a quotation mark and at what it takes for `EOF`. -/
theorem stringBody_stop (value : List UInt8) (hstop : h.isEof c = true ∨ c = byte '"')
    {text' : List UInt8}
    (hread : Reads (getChar h fuel false) text (c, !h.isEof c) text') :
    Reads (stringBody h fuel value) text (.inr (some (value, c))) text' := by
  refine hread.bind ?_
  have hend : (!h.isEof c && c != byte '"') = false := by
    rcases hstop with heof | rfl
    · rw [heof, Bool.not_true, Bool.false_and]
    · simp
  simp only [hend, Bool.false_eq_true, if_false]
  exact Yields.pure _ _

/-- A backslash, and what is behind it. -/
theorem stringBody_escape {d : UInt8} {found : Bool} {text' : List UInt8}
    {Φ : Outcome Lexer Event (List UInt8 ⊕ Option (List UInt8 × UInt8)) → Prop}
    (hΦ : Closed Event.Fine Φ)
    (hread : Reads (getChar h fuel false) text (byte '\\', !h.isEof (byte '\\')) rest)
    (hnext : Reads (getChar h fuel false) rest (d, found) text')
    (hend : Ends Before (if d ≠ byte '"' then
        error "Invalid escape character." >>= fun _ => pure (.inr none)
      else pure (.inl (value ++ [d]))) text' Φ) :
    Ends Before (stringBody h fuel value) text Φ := by
  refine hread.ends_bind hΦ ?_
  rw [not_isEof_backslash]
  exact hnext.ends_bind hΦ hend

/-- Without an end of the file that can be told, the loop does not leave it. -/
theorem stringLoop_diverges (hs : h.charSigned = false) (hfuel : 1 < fuel) (n : Nat)
    (value : List UInt8) :
    Ends Before (loop (stringBody h fuel) n value) [] fun o => o.result = none := by
  induction n generalizing value with
  | zero => exact fun _ _ => rfl
  | succ n ih =>
    have heof : h.isEof eof = false := by simp [Host.isEof, hs]
    exact (stringBody_other heof (by decide) (by decide)
      (getChar_reads_false_nil hfuel)).ends_loop closed_outOfFuel (ih _)

/-- An escape that is not one ends the loop. -/
theorem stringLoop_bad_escape (hd : d ≠ byte '"') {found : Bool} {text' : List UInt8}
    (hread : Reads (getChar h fuel false) text (byte '\\', !h.isEof (byte '\\')) rest)
    (hnext : Reads (getChar h fuel false) rest (d, found) text') :
    Ends Before (loop (stringBody h fuel) (n + 1) value) text (Stops (some none)) := by
  have hbody : Ends Before (stringBody h fuel value) text fun o =>
      o.result = some (.inr none) ∧ ∃ e ∈ o.trace, ¬ e.Fine := by
    refine stringBody_escape ?_ hread hnext ?_
    · rintro r s l l' - ⟨hr, e, he, hfine⟩
      exact ⟨hr, e, List.mem_append_right _ he, hfine⟩
    · rw [if_pos hd]
      exact fun s _ => ⟨rfl, .error s.lineno s.lineLoc _, List.mem_singleton.mpr rfl, id⟩
  intro s hs
  obtain ⟨hr, e, he, hfine⟩ := hbody s hs
  rw [loop, bind_of_some hr]
  exact .inr ⟨rfl, e, List.mem_append_left _ he, hfine⟩

/-- An escaped mark is taken into the value. -/
theorem stringBody_mark (hfuel : text.length + 3 < fuel) (value : List UInt8) :
    Reads (stringBody h fuel value) (byte '\\' :: byte '"' :: text)
      (.inl (value ++ [byte '"'])) text := by
  have hread : Reads (getChar h fuel false) (byte '\\' :: byte '"' :: text)
      (byte '\\', !h.isEof (byte '\\')) (byte '"' :: text) := getChar_reads_false hfuel
  have hnext : Reads (getChar h fuel false) (byte '"' :: text) (byte '"', !h.isEof (byte '"'))
      text := getChar_reads_false (by rw [List.length_cons]; omega)
  refine stringBody_escape closed_yields hread hnext ?_
  rw [if_neg (not_not.mpr rfl)]
  exact Yields.pure _ _

/-- At the end of the file the loop stops where `EOF` can be told from a character. -/
theorem stringLoop_nil (hfuel : 1 < fuel) (n : Nat) (value : List UInt8) :
    Ends Before (loop (stringBody h fuel) (n + 1) value) [] (Stops (h.scanString value [])) := by
  rw [Host.scanString]
  cases hs : h.charSigned with
  | false =>
    rw [if_neg Bool.false_ne_true]
    exact stringLoop_diverges hs hfuel _ _
  | true =>
    have hread := getChar_reads_false_nil (h := h) hfuel
    intro s hbefore
    have hstop := stringBody_stop value (.inl (by simp [Host.isEof, hs])) hread
    exact .inl ⟨value, (hstop.loop s hbefore).1⟩

/-- **The loop does what the scanner tells.** -/
theorem stringLoop_stops (hfuel : text.length + 1 < fuel) (hn : text.length < n)
    (value : List UInt8) : Ends Before (loop (stringBody h fuel) n value) text
      (Stops (h.scanString value text)) := by
  induction n using Nat.strong_induction_on generalizing text value with
  | _ n ih =>
  obtain ⟨n, rfl⟩ := Nat.exists_eq_succ_of_ne_zero (Nat.ne_of_gt (Nat.zero_lt_of_lt hn))
  cases text with
  | nil => exact stringLoop_nil (by omega) n value
  | cons c text =>
    have hread := getChar_reads_false (h := h) hfuel
    rw [List.length_cons] at hfuel hn
    cases heof : h.isEof c with
    | true =>
      rw [scanString_of_isEof heof]
      intro s hbefore
      have hstop := stringBody_stop value (.inl heof) hread
      refine .inl ⟨value, ?_⟩
      rw [(hstop.loop s hbefore).1, (isEof_iff.mp heof).2]
    | false =>
      by_cases hmark : c = byte '"'
      · subst hmark
        rw [scanString_mark]
        exact (stringBody_stop value (.inr rfl) hread).loop
      · by_cases hescape : c = byte '\\'
        · subst hescape
          rw [scanString_escape]
          cases text with
          | nil =>
            have hnext := getChar_reads_false_nil (h := h) (show 1 < fuel by omega)
            exact stringLoop_bad_escape (by decide) hread hnext
          | cons d text =>
            rw [List.length_cons] at hfuel hn
            by_cases hd : d = byte '"'
            · subst hd
              simp only [if_pos]
              exact (stringBody_mark hfuel value).ends_loop (closed_stops _)
                (ih n (Nat.lt_succ_self n) (by omega) (by omega) _)
            · have hnext : Reads (getChar h fuel false) (d :: text) (d, !h.isEof d) text :=
                getChar_reads_false (by rw [List.length_cons]; omega)
              simp only [if_neg hd]
              exact stringLoop_bad_escape hd hread hnext
        · rw [scanString_other heof hmark hescape]
          exact (stringBody_other heof hmark hescape hread).ends_loop (closed_stops _)
            (ih n (Nat.lt_succ_self n) (by omega) (by omega) _)

/-- What a call comes to by the verdict. -/
def StringComes (v : StringVerdict) (o : Outcome Lexer Event (Bool × Token)) : Prop :=
  match v with
  | none => o.result = none
  | some none => Refuses o
  | some (some (value, rest)) => TakesString value rest o

theorem closed_stringComes (v : StringVerdict) : Closed Event.Fine (StringComes v) := by
  match v with
  | none => exact closed_outOfFuel
  | some none =>
    rintro r s l l' - ⟨hr, e, he, hfine⟩
    exact ⟨hr, e, List.mem_append_right _ he, hfine⟩
  | some (some (value, rest)) =>
    rintro r s l l' hl ⟨hr, hs, hl'⟩
    exact ⟨hr, hs, List.forall_mem_append.mpr ⟨hl, hl'⟩⟩

/-- The loop and what is made of its end. -/
theorem stringLoop_comes (hfuel : text.length + 1 < fuel) (token : Token) :
    Ends Before (loop (stringBody h fuel) fuel [] >>= stringEnd token) text
      (StringComes (h.scanString [] text)) := by
  intro s hs
  have hstops := stringLoop_stops (h := h) hfuel (Nat.lt_of_succ_lt hfuel) [] s hs
  revert hstops
  match h.scanString [] text with
  | none =>
    intro hnone
    rw [bind_of_none hnone]
    rfl
  | some none =>
    rintro (⟨value, hr⟩ | ⟨hr, e, he, hfine⟩)
    · rw [bind_of_some hr, stringEnd]
      rw [if_pos (show eof ≠ byte '"' by decide)]
      exact ⟨⟨token, rfl⟩, _, List.mem_append_right _ (List.mem_singleton.mpr rfl), id⟩
    · rw [bind_of_some hr]
      exact ⟨⟨token, rfl⟩, e, List.mem_append_left _ he, hfine⟩
  | some (some (value, rest)) =>
    rintro ⟨hr, hbefore, hfine⟩
    rw [bind_of_some hr, stringEnd]
    rw [if_neg (not_not.mpr rfl)]
    exact ⟨⟨_, rfl, rfl, rfl⟩, hbefore.rest, by simpa [bind_apply] using hfine⟩

/-- **What `LexFromString` comes to**, by the text behind the opening quotation mark. -/
theorem lexFromString_comes (hfuel : text.length + 2 < fuel) (token : Token) (c : UInt8) :
    Ends Before (lexFromString h fuel token) (c :: text) (StringComes (h.scanString [] text)) := by
  rw [lexFromString_eq]
  refine (getChar_reads_false hfuel).ends_bind (closed_stringComes _) ?_
  exact stringLoop_comes (Nat.lt_of_succ_lt hfuel) token

theorem peekChar_reads_mark (text : List UInt8) :
    Reads (peekChar true) (byte '"' :: text) (some (byte '"')) (byte '"' :: text) := by
  refine Reads.of_ahead fun stream hstream => ⟨stream, hstream, ?_⟩
  have hpeek := peekChar_true_ahead stream
  rw [peeked_of_clear (by rw [hstream]; rfl), hstream] at hpeek
  exact hpeek

/-- `Lex` where there is a quotation mark. -/
theorem lex_string_comes (hfuel : text.length + 2 < fuel) :
    Ends Before (lex h fuel) (byte '"' :: text) (StringComes (h.scanString [] text)) := by
  intro s hs
  obtain ⟨hpeek, hbefore, hfine⟩ := peekChar_reads_mark text s hs
  have hlex : lex h fuel s = _ := lex_at (Nat.lt_of_le_of_lt (Nat.zero_le _) hfuel)
    (show byte '"' ≠ byte '/' by decide) (eq_of_result hpeek)
  rw [hlex]
  refine closed_stringComes _ _ _ (.lex :: _) _ ?_ (lexFromString_comes hfuel _ _ _ hbefore)
  exact List.forall_mem_cons.mpr ⟨trivial, hfine⟩

theorem StringComes.takes_iff {v : StringVerdict} {o : Outcome Lexer Event (Bool × Token)}
    (ho : StringComes v o) : TakesString value rest o ↔ v = some (some (value, rest)) := by
  match v with
  | none =>
    refine iff_of_false ?_ (by simp)
    rintro ⟨⟨token, hr, -⟩, -⟩
    rw [show o.result = none from ho] at hr
    cases hr
  | some none =>
    refine iff_of_false ?_ (by simp)
    rintro ⟨⟨token, hr, -⟩, -⟩
    obtain ⟨⟨token', hr'⟩, -⟩ := ho
    rw [hr'] at hr
    cases hr
  | some (some (value', rest')) =>
    obtain ⟨⟨token', hr', htype', hvalue'⟩, hrest', hfine⟩ := ho
    constructor
    · rintro ⟨⟨token, hr, htype, hvalue⟩, hrest, -⟩
      rw [hr'] at hr
      obtain rfl : token' = token := (Prod.mk.inj (Option.some.inj hr)).2
      rw [← hvalue, ← hrest, hvalue', hrest']
    · intro heq
      obtain ⟨rfl, rfl⟩ := Prod.mk.inj (Option.some.inj (Option.some.inj heq))
      exact ⟨⟨token', hr', htype', hvalue'⟩, hrest', hfine⟩

theorem StringComes.refuses_iff {v : StringVerdict} {o : Outcome Lexer Event (Bool × Token)}
    (ho : StringComes v o) : Refuses o ↔ v = some none := by
  match v with
  | none =>
    refine iff_of_false ?_ (by simp)
    rintro ⟨⟨token, hr⟩, -⟩
    rw [show o.result = none from ho] at hr
    cases hr
  | some none => exact iff_of_true ho rfl
  | some (some (value, rest)) =>
    refine iff_of_false ?_ (by simp)
    rintro ⟨⟨token, hr⟩, -⟩
    obtain ⟨⟨token', hr', -⟩, -⟩ := ho
    rw [hr'] at hr
    cases hr

end Lexer

/-! ## The law -/

theorem quoted_append (value rest : List UInt8) :
    quoted value ++ rest = byte '"' :: (escaped value ++ byte '"' :: rest) := by
  rw [quoted, List.append_assoc]
  rfl

/-- The scanner on a literal. -/
theorem scanString_quoted (hescape : byte '\\' ∉ value) (rest : List UInt8) :
    h.scanString [] (escaped value ++ byte '"' :: rest) = some (some (value, rest)) ↔
      (h.charSigned = true → eof ∉ value) := by
  by_cases heof : ∃ c ∈ value, h.isEof c = true
  · rw [scanString_eof hescape heof]
    obtain ⟨c, hc, hceof⟩ := heof
    obtain ⟨hs, rfl⟩ := isEof_iff.mp hceof
    exact iff_of_false (by simp) fun hnot => hnot hs hc
  · have hall : ∀ c ∈ value, h.isEof c = false := by
      intro c hc
      by_contra hnot
      exact heof ⟨c, hc, by simpa using hnot⟩
    rw [scanString_escaped hescape hall, List.nil_append, scanString_mark]
    refine iff_of_true rfl fun hs hmem => heof ⟨eof, hmem, ?_⟩
    exact isEof_iff.mpr ⟨hs, rfl⟩

/-- The scanner where the file ends in the string. -/
theorem scanString_unended (hescape : byte '\\' ∉ value) :
    h.scanString [] (escaped value) = if h.charSigned then some none else none := by
  by_cases heof : ∃ c ∈ value, h.isEof c = true
  · have hscan := scanString_eof hescape heof [] []
    obtain ⟨c, -, hceof⟩ := heof
    rw [List.append_nil] at hscan
    rw [hscan, if_pos (isEof_iff.mp hceof).1]
  · have hscan := scanString_escaped (h := h) hescape (by simpa using heof) [] []
    rw [List.append_nil] at hscan
    rw [hscan, Host.scanString]

/-- The scanner at an escape that is not one. -/
theorem scanString_bad_escape (hescape : byte '\\' ∉ value) (hrest : rest.head? ≠ some (byte '"')) :
    h.scanString [] (escaped value ++ byte '\\' :: rest) = some none := by
  by_cases heof : ∃ c ∈ value, h.isEof c = true
  · exact scanString_eof hescape heof [] _
  · rw [scanString_escaped hescape (by simpa using heof), scanString_escape]
    cases rest with
    | nil => rfl
    | cons d rest => exact if_neg fun hd => hrest (by rw [hd]; rfl)

theorem scanString_malformed (hbad : Malformed (byte '"' :: text)) :
    h.scanString [] text = some none ∨ h.charSigned = false ∧
      ∃ value, byte '\\' ∉ value ∧ byte '"' :: text = byte '"' :: escaped value := by
  obtain ⟨value, hescape, htext | ⟨rest, htext, hrest⟩⟩ := hbad
  · cases hs : h.charSigned with
    | false => exact .inr ⟨rfl, value, hescape, htext⟩
    | true =>
      obtain rfl := (List.cons.inj htext).2
      rw [scanString_unended hescape, if_pos hs]
      exact .inl rfl
  · obtain rfl := (List.cons.inj htext).2
    exact .inl (scanString_bad_escape hescape hrest)

/-- **String literals.** `Lex` undoes the quoting of the literal that is there and reports an error
for what is not a literal, just in case no byte of the string is taken for the end of the file, or,
where plain `char` is unsigned, the file does not end in the string. -/
theorem lexesString_iff (h : Host) (s : Lexer) (hsrc : ∀ chunk ∈ s.src, chunk ≠ []) :
    LexesString h s ↔ h.StringRight s.rest := by
  have hcomes : ∀ text, s.rest = byte '"' :: text → ∀ fuel, s.rest.length + 1 < fuel →
      Lexer.StringComes (h.scanString [] text) (Lexer.lex h fuel s) := by
    intro text hrest fuel hfuel
    rw [hrest] at hfuel
    exact Lexer.lex_string_comes hfuel s ⟨hrest, hsrc⟩
  have henough : s.rest.length + 1 < s.rest.length + 2 := Nat.lt_succ_self _
  unfold Host.StringRight
  constructor
  · rintro ⟨hundoes, hrefuses⟩
    split
    · next hs =>
      intro value rest hescape hrest
      have htakes := hundoes value rest hescape hrest _ henough
      rw [quoted_append] at hrest
      rw [(hcomes _ hrest _ henough).takes_iff, scanString_quoted hescape] at htakes
      exact htakes hs
    · next hs =>
      intro value hescape hrest
      have hbad := hrefuses ⟨value, hescape, .inl hrest⟩ _ henough
      rw [(hcomes _ hrest _ henough).refuses_iff, scanString_unended hescape, if_neg hs] at hbad
      cases hbad
  · intro hright
    refine ⟨fun value rest hescape hrest fuel hfuel => ?_, fun hbad fuel hfuel => ?_⟩
    · have htext := hrest
      rw [quoted_append] at htext
      rw [(hcomes _ htext fuel hfuel).takes_iff, scanString_quoted hescape]
      intro hs
      rw [if_pos hs] at hright
      exact hright value rest hescape hrest
    · obtain ⟨text, htext⟩ : ∃ text, s.rest = byte '"' :: text := by
        obtain ⟨value, -, hrest | ⟨rest, hrest, -⟩⟩ := hbad
        · exact ⟨_, hrest⟩
        · exact ⟨_, hrest⟩
      rw [(hcomes text htext fuel hfuel).refuses_iff]
      rw [htext] at hbad hright
      rcases scanString_malformed hbad with hscan | ⟨hs, value, hescape, hvalue⟩
      · exact hscan
      · rw [if_neg (by simp [hs])] at hright
        exact absurd hvalue (hright value hescape)

/-- A string with a newline and an escaped mark, in two reads of the file. -/
theorem lexesString_iff_marked : LexesString {} { src := [bytes "\"a\\", bytes "\"\nb\";"] } := by
  refine (lexesString_iff {} _ (by decide)).mpr fun value rest _ htext hmem => ?_
  have heof : eof ∈ quoted value ++ rest :=
    List.mem_append_left _ (List.mem_append_left _ (List.mem_cons_of_mem _ (mem_escaped hmem)))
  rw [← htext] at heof
  exact absurd heof (by decide)

/-- The byte 0xFF ends the string. -/
theorem string_byte_not_undone : ¬ LexesString {} { src := [byte '"' :: eof :: bytes "\""] } := by
  rintro ⟨hundoes, -⟩
  obtain ⟨⟨token, hresult, -⟩, -⟩ := hundoes [eof] [] (by decide) rfl 10 (by decide)
  have hfails : (Lexer.lex {} 10 { src := [byte '"' :: eof :: bytes "\""] }).result.map Prod.fst =
      some false := by decide
  rw [hresult] at hfails
  cases hfails

end HcGen
