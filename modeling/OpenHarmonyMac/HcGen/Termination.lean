import OpenHarmonyMac.HcGen.LineNumbers
import OpenHarmonyMac.HcGen.Strings

/-!
# Termination

* `terminates_iff` — when all calls of `Lex` for a file return, and come to its end or to an error
-/

namespace HcGen

open Infra Infra.Program

/-! ## Files that end in a comment or in a string -/

/-- What is behind a `/` is a comment that the file ends in. -/
def Host.CommentUnended (h : Host) (text : List UInt8) : Prop :=
  match Lexer.skipped h.getCharSkipsSpace text with
  | [] => False
  | c :: rest =>
    c = byte '/' ∧ byte '\n' ∉ rest ∨
      c = byte '*' ∧ ∀ pre rest', ¬ h.FirstStop 0 rest pre (byte '/') rest'

/-- What is behind a quotation mark is a string that the file ends in. -/
def StringUnended (text : List UInt8) : Prop := ∃ value, byte '\\' ∉ value ∧ text = escaped value

/-- Behind blanks and comments comes a comment or a string that the file ends in. -/
inductive Host.RunsOff (h : Host) : List (UInt8 × Bool) → Prop
  | comment {stream after : List (UInt8 × Bool)} {last : Bool}
      (hfound : Lexer.peeked stream = (some (byte '/'), (byte '/', last) :: after))
      (hunended : h.CommentUnended (after.map Prod.fst)) : Host.RunsOff h stream
  | string {stream after : List (UInt8 × Bool)} {last : Bool}
      (hfound : Lexer.peeked stream = (some (byte '"'), (byte '"', last) :: after))
      (hunended : StringUnended (after.map Prod.fst)) : Host.RunsOff h stream
  | behind {stream after rest : List (UInt8 × Bool)} {last : Bool}
      (hfound : Lexer.peeked stream = (some (byte '/'), (byte '/', last) :: after))
      (hcomment : Lexer.commentVerdict h (after.map Prod.fst) = some (some (rest.map Prod.fst)))
      (hrest : rest <:+ after) (hruns : Host.RunsOff h rest) : Host.RunsOff h stream

/-- With enough fuel, every call of `Lex` for the file returns, a token that is not the end of the
file takes at least one byte, and as many calls as there are bytes, and one more, come to the end of
the file or to an error. -/
structure Terminates (h : Host) (chunks : List (List UInt8)) : Prop where
  returns : ∀ fuel s, chunks.flatten.length + 2 < fuel → Lexer.Called h fuel { src := chunks } s →
    (Lexer.lex h fuel s).result ≠ none
  consumes : ∀ fuel s token, chunks.flatten.length + 2 < fuel →
    Lexer.Called h fuel { src := chunks } s → (Lexer.lex h fuel s).result = some (true, token) →
      token.type ≠ .eof → (Lexer.lex h fuel s).state.rest.length < s.rest.length
  ends : ∀ fuel, chunks.flatten.length + 2 < fuel →
    (lexAll h fuel (chunks.flatten.length + 1) { src := chunks }).2.1 ≠ .outOfFuel

variable {h : Host} {value text rest : List UInt8} {c d : UInt8}

/-! ## Verdicts that never come -/

/-- The loop of a string does not end just in case the file ends in the string, and the end cannot
be told. -/
theorem scanString_eq_none_iff (before text : List UInt8) :
    h.scanString before text = none ↔ h.charSigned = false ∧ StringUnended text := by
  constructor
  · fun_induction Host.scanString h before text with
    | case1 => simp
    | case2 before hs => exact fun _ => ⟨by simpa using hs, [], by simp, rfl⟩
    | case3 => simp
    | case4 => simp
    | case5 => simp
    | case6 before text _ _ ih =>
      intro hnone
      obtain ⟨hs, value, hvalue, rfl⟩ := ih hnone
      exact ⟨hs, byte '"' :: value, by simp [hvalue]; decide, (escaped_mark value).symm⟩
    | case7 => simp
    | case8 before c text _ hmark hescape ih =>
      intro hnone
      obtain ⟨hs, value, hvalue, rfl⟩ := ih hnone
      exact ⟨hs, c :: value, by simp [hvalue, Ne.symm hescape], (escaped_other hmark value).symm⟩
  · rintro ⟨hs, value, hvalue, rfl⟩
    have hscan := scanString_escaped (h := h) hvalue (by simp [Host.isEof, hs]) before []
    rw [List.append_nil] at hscan
    rw [hscan, Host.scanString, if_neg (by simp [hs])]

/-- Only a newline ends a line, where plain `char` is unsigned. -/
theorem lineVerdict_eq_none_iff :
    Lexer.lineVerdict h text = none ↔ h.charSigned = false ∧ byte '\n' ∉ text := by
  unfold Lexer.lineVerdict
  cases hs : h.charSigned with
  | true =>
    refine iff_of_false ?_ (by simp)
    split <;> simp
  | false =>
    have hline : ∀ c, Lexer.inLine h c = true ↔ c ≠ byte '\n' := by
      intro c
      simp [Lexer.inLine, Host.isEof, hs]
    cases hend : text.dropWhile (Lexer.inLine h) with
    | nil =>
      refine iff_of_true (by simp) ⟨rfl, fun hmem => ?_⟩
      exact (hline _).mp (List.dropWhile_eq_nil_iff.mp hend _ hmem) rfl
    | cons c rest =>
      refine iff_of_false (by simp) fun hnone => ?_
      have hhead := List.head?_dropWhile_not (Lexer.inLine h) text
      rw [hend] at hhead
      have hc : c = byte '\n' := by
        by_contra hne
        have hfalse : Lexer.inLine h c = false := hhead
        rw [(hline c).mpr hne] at hfalse
        cases hfalse
      have hmem : c ∈ text.dropWhile (Lexer.inLine h) := by
        rw [hend]
        exact List.mem_cons_self
      exact hnone.2 (hc ▸ (List.dropWhile_sublist _).subset hmem)

theorem blockVerdict_eq_none_iff : Lexer.blockVerdict h text = none ↔
    h.charSigned = false ∧ ∀ pre rest, ¬ h.FirstStop 0 text pre (byte '/') rest := by
  have hsome : ∀ c rest, h.scanBlock false text = some (c, rest) ↔
      ∃ pre, h.FirstStop 0 text pre c rest := fun c rest => Host.scanBlock_eq_some_iff 0
  unfold Lexer.blockVerdict
  cases hs : h.charSigned with
  | true =>
    refine iff_of_false ?_ (by simp)
    split <;> simp
  | false =>
    cases hscan : h.scanBlock false text with
    | none =>
      refine iff_of_true (by simp) ⟨rfl, fun pre rest hstop => ?_⟩
      have hfound := (hsome (byte '/') rest).mpr ⟨pre, hstop⟩
      rw [hscan] at hfound
      cases hfound
    | some r =>
      obtain ⟨c, rest⟩ := r
      obtain ⟨pre, hstop⟩ := (hsome c rest).mp hscan
      refine iff_of_false (by simp) fun hnone => ?_
      -- no other character can stop the loop
      have hc : c = byte '/' := by
        rcases hstop.stops with ⟨hc, -⟩ | ⟨heof, -⟩
        · exact hc
        · simp [Host.isEof, hs] at heof
      subst hc
      exact hnone.2 pre rest hstop

/-- A comment does not end just in case the file ends in it, and the end cannot be told. -/
theorem commentVerdict_eq_none_iff : Lexer.commentVerdict h text = none ↔
    h.charSigned = false ∧ h.CommentUnended text := by
  unfold Lexer.commentVerdict Host.CommentUnended
  cases Lexer.skipped h.getCharSkipsSpace text with
  | nil => simp
  | cons c rest =>
    by_cases heof : h.isEof c = true
    · simp [heof, (isEof_iff.mp heof).1]
    · simp only [heof]
      have hne : byte '/' ≠ byte '*' := by decide
      by_cases hslash : c = byte '/'
      · subst hslash
        simp [lineVerdict_eq_none_iff, hne]
      · by_cases hstar : c = byte '*'
        · subst hstar
          simp [blockVerdict_eq_none_iff, Ne.symm hne]
        · simp [hslash, hstar]

/-! ## One turn of the loop -/

namespace Lexer

variable {fuel : Nat} {s : Lexer} {token : Token} {last : Bool} {stream after : List (UInt8 × Bool)}

/-- The call returns, and a token that it returns is taken from the front of what is behind. -/
def Consumes (after : List (UInt8 × Bool)) (o : Outcome Lexer Event (Bool × Token)) : Prop :=
  ∀ token, o.result = some (true, token) → token.type ≠ .eof → o.state.Within after

def Returns (after : List (UInt8 × Bool)) (o : Outcome Lexer Event (Bool × Token)) : Prop :=
  o.result ≠ none ∧ Consumes after o

theorem closed_consumes : Closed Event.Fine (Consumes after) := fun _ _ _ _ _ ho => ho

/-- What begins with `GetChar` takes a byte, if it returns. -/
theorem consumes_getChar {f : UInt8 × Bool → LexM (Bool × Token)}
    (hf : ∀ r, Keeps (Within after) (f r)) :
    Ends Ahead (getChar h fuel false >>= f) ((c, last) :: after) (Consumes after) :=
  getChar_ahead.ends_bind closed_consumes fun s hs _ hresult _ =>
    hf _ s ⟨after, List.suffix_refl _, hs⟩ _ hresult

theorem dropWhile_within (accept : UInt8 → Bool)
    (hs : s.Ahead (after.dropWhile fun x => accept x.1)) : s.Within after :=
  ⟨_, List.dropWhile_suffix _, hs⟩

theorem lexFromNumber_returns (hfuel : after.length < fuel) (token : Token) :
    Ends Ahead (lexFromNumber h fuel token) ((c, last) :: after) (Returns after) := by
  obtain ⟨value, r, hread⟩ := lexNumber_ahead h hfuel c
  intro s hs
  refine ⟨fun hnone => ?_, consumes_getChar
    (fun r => (steady_within h fuel after).behindNumber token r.1) s hs⟩
  have hconverts := lexFromNumber_converts token hread s hs
  unfold Converts at hconverts
  split at hconverts
  · obtain ⟨⟨token', hresult⟩, -⟩ := hconverts
    rw [hresult] at hnone
    cases hnone
  · obtain ⟨⟨token', hresult, -⟩, -⟩ := hconverts
    rw [hresult] at hnone
    cases hnone

theorem lexInclude_returns (hfuel : after.length < fuel) (token : Token) :
    Ends Ahead (lexInclude h fuel token) ((c, last) :: after) (Returns after) := by
  refine consumeChar_ahead.ends_bind (fun _ _ _ _ _ ho => ho) fun s hs => ?_
  obtain ⟨⟨token', hresult⟩, hahead⟩ := lexFromLiteral_ahead hfuel token s hs
  have hwithin := dropWhile_within inLiteral hahead
  rw [bind_of_some hresult]
  split
  · exact ⟨by simp, fun _ _ _ => hwithin⟩
  · exact ⟨by simp, fun _ _ _ => hwithin⟩

theorem inLiteral_of_isalpha (hc : isalpha c = true) : inLiteral c = true := by
  simp [inLiteral, isalnum, hc, isSpace_of_isalpha hc]

theorem lexFromLiteral_returns (hfuel : after.length + 1 < fuel) (token : Token)
    (hc : isalpha c = true) :
    Ends Ahead ((true, ·) <$> lexFromLiteral h fuel token) ((c, last) :: after)
      (Returns after) := by
  intro s hs
  obtain ⟨⟨token', hresult⟩, hahead⟩ :=
    lexFromLiteral_ahead (show ((c, last) :: after).length < fuel from hfuel) token s hs
  rw [List.dropWhile_cons, if_pos (inLiteral_of_isalpha hc)] at hahead
  rw [map_apply, hresult]
  exact ⟨by simp, fun _ _ _ => dropWhile_within inLiteral hahead⟩

theorem setTokenCharacter_returns (hfuel : after.length < fuel) (token : Token)
    (hc : c ≠ byte '"') :
    Ends Ahead (setTokenCharacter h fuel c token) ((c, last) :: after) (Returns after) := by
  unfold setTokenCharacter
  rw [if_neg hc]
  split
  · refine consumeChar_ahead.ends_bind (fun _ _ _ _ _ ho => ho) fun s hs => ?_
    exact ⟨by simp [bind_apply], fun _ _ _ => ⟨after, List.suffix_refl _, hs⟩⟩
  · split
    · exact lexFromNumber_returns hfuel token
    · split
      · refine fun s _ => ⟨by simp, fun token' hresult heof => ?_⟩
        obtain rfl := (Prod.mk.inj (Option.some.inj hresult)).2
        exact absurd rfl heof
      · refine fun s _ => ⟨by simp [bind_apply, error], fun token' hresult => ?_⟩
        cases hresult

/-- A token that is not a string. -/
theorem lexFound_returns (hfuel : after.length + 1 < fuel) (token : Token) (hc : c ≠ byte '"') :
    Ends Ahead (lexFound h fuel token c) ((c, last) :: after) (Returns after) := by
  unfold lexFound
  split
  · exact lexInclude_returns (Nat.lt_of_succ_lt hfuel) token
  · split
    · next halpha => exact lexFromLiteral_returns hfuel token halpha
    · split
      · exact lexFromNumber_returns (Nat.lt_of_succ_lt hfuel) token
      · exact setTokenCharacter_returns (Nat.lt_of_succ_lt hfuel) token hc

theorem StringComes.eq_none_iff {v : StringVerdict} {o : Outcome Lexer Event (Bool × Token)}
    (ho : StringComes v o) : o.result = none ↔ v = none := by
  match v with
  | none => exact iff_of_true ho rfl
  | some none =>
    obtain ⟨⟨token, hresult⟩, -⟩ := ho
    exact iff_of_false (by rw [hresult]; simp) (by simp)
  | some (some (value, rest)) =>
    obtain ⟨⟨token, hresult, -⟩, -⟩ := ho
    exact iff_of_false (by rw [hresult]; simp) (by simp)

theorem Ahead.before (hs : s.Ahead stream) : s.Before (stream.map Prod.fst) where
  rest := by rw [← stream_map_fst, hs.stream]
  nonempty := hs.nonempty

/-- A string. -/
theorem lexFound_string (hfuel : after.length + 2 < fuel) (token : Token) :
    Ends Ahead (lexFound h fuel token (byte '"')) ((byte '"', last) :: after) fun o =>
      (o.result = none ↔ h.charSigned = false ∧ StringUnended (after.map Prod.fst)) ∧
        Consumes after o := by
  intro s hs
  show (_ ↔ _) ∧ Consumes after (lexFromString h fuel token s)
  have hlength : (after.map Prod.fst).length + 2 < fuel := by rwa [List.length_map]
  have hcomes := lexFromString_comes (h := h) hlength token (byte '"') s hs.before
  refine ⟨hcomes.eq_none_iff.trans (scanString_eq_none_iff _ _), ?_⟩
  exact consumes_getChar (fun _ => (steady_within h fuel after).stringLoop token) s hs

/-! ## The loop -/

/-- What is found where the file runs off. -/
theorem RunsOff.found (hruns : h.RunsOff stream) : ∃ c last after,
    peeked stream = (some c, (c, last) :: after) ∧
      (c = byte '/' ∧ (h.CommentUnended (after.map Prod.fst) ∨
          ∃ rest, commentVerdict h (after.map Prod.fst) = some (some (rest.map Prod.fst)) ∧
            rest <:+ after ∧ h.RunsOff rest) ∨
        c = byte '"' ∧ StringUnended (after.map Prod.fst)) := by
  cases hruns with
  | comment hfound hunended => exact ⟨_, _, _, hfound, .inl ⟨rfl, .inl hunended⟩⟩
  | string hfound hunended => exact ⟨_, _, _, hfound, .inr ⟨rfl, hunended⟩⟩
  | behind hfound hcomment hrest hruns =>
    exact ⟨_, _, _, hfound, .inl ⟨rfl, .inr ⟨_, hcomment, hrest, hruns⟩⟩⟩

theorem not_runsOff_of_none (hpeek : (peeked stream).1 = none) : ¬ h.RunsOff stream := by
  intro hruns
  obtain ⟨c, last, after, hfound, -⟩ := RunsOff.found hruns
  rw [hfound] at hpeek
  cases hpeek

section Found

variable (hpeek : peeked stream = (some c, (c, last) :: after))

include hpeek

theorem runsOff_token_iff (hslash : c ≠ byte '/') :
    h.RunsOff stream ↔ c = byte '"' ∧ StringUnended (after.map Prod.fst) := by
  constructor
  · intro hruns
    obtain ⟨c', last', after', hfound, hcase⟩ := RunsOff.found hruns
    rw [hpeek] at hfound
    cases hfound
    exact hcase.resolve_left fun hcomment => hslash hcomment.1
  · rintro ⟨rfl, hunended⟩
    exact .string hpeek hunended

/-- At a comment the verdict decides. -/
theorem runsOff_comment_iff (hc : c = byte '/') (hs : h.charSigned = false) :
    h.RunsOff stream ↔ commentVerdict h (after.map Prod.fst) = none ∨
      ∃ rest, commentVerdict h (after.map Prod.fst) = some (some (rest.map Prod.fst)) ∧
        rest <:+ after ∧ h.RunsOff rest := by
  subst hc
  constructor
  · intro hruns
    obtain ⟨c', last', after', hfound, hcase⟩ := RunsOff.found hruns
    rw [hpeek] at hfound
    cases hfound
    rcases hcase with ⟨-, hunended | hbehind⟩ | ⟨hmark, -⟩
    · exact .inl (commentVerdict_eq_none_iff.mpr ⟨hs, hunended⟩)
    · exact .inr hbehind
    · exact absurd hmark (by decide)
  · rintro (hnone | ⟨rest, hcomment, hrest, hruns⟩)
    · exact .comment hpeek (commentVerdict_eq_none_iff.mp hnone).2
    · exact .behind hpeek hcomment hrest hruns

end Found

/-- The call does not return just in case the file runs off here, and a token that it returns takes
something. -/
def CallLaw (h : Host) (stream : List (UInt8 × Bool)) (o : Outcome Lexer Event (Bool × Token)) :
    Prop :=
  (o.result = none ↔ h.charSigned = false ∧ h.RunsOff stream) ∧
    ∀ token, o.result = some (true, token) → token.type ≠ .eof →
      o.state.stream.length < stream.length

theorem CallLaw.of_stuck {o : Outcome Lexer Event (Bool × Token)} (hresult : o.result = none)
    (hs : h.charSigned = false) (hruns : h.RunsOff stream) : CallLaw h stream o := by
  refine ⟨iff_of_true hresult ⟨hs, hruns⟩, fun token htoken => ?_⟩
  rw [hresult] at htoken
  cases htoken

theorem CallLaw.of_returned {o : Outcome Lexer Event (Bool × Token)} {r : Bool × Token}
    (hresult : o.result = some r) (hruns : ¬ (h.charSigned = false ∧ h.RunsOff stream))
    (hshort : r.1 = true → r.2.type ≠ .eof → o.state.stream.length < stream.length) :
    CallLaw h stream o := by
  refine ⟨iff_of_false (by rw [hresult]; simp) hruns, fun token htoken heof => ?_⟩
  rw [hresult] at htoken
  obtain rfl := Option.some.inj htoken
  exact hshort rfl heof

theorem Within.length_le (hs : s.Within stream) : s.stream.length ≤ stream.length := by
  obtain ⟨stream', hsuffix, hahead⟩ := hs
  rw [hahead.stream]
  exact hsuffix.length_le

theorem lexBody_apply {found : Option UInt8} (hpeek : (peekChar true s).result = some found) :
    (lexBody h fuel token () s).result = (match found with
      | none => some (.inr (true, { token with type := .eof }))
      | some c => (lexChar h fuel token c (peekChar true s).state).result) ∧
    (lexBody h fuel token () s).state = (match found with
      | none => (peekChar true s).state
      | some c => (lexChar h fuel token c (peekChar true s).state).state) := by
  rw [lexBody, bind_of_some hpeek]
  cases found with
  | none => exact ⟨rfl, rfl⟩
  | some c => exact ⟨rfl, rfl⟩

/-- A token is found. -/
theorem lexFound_law (hfuel : after.length + 2 < fuel) (token : Token)
    (hpeek : peeked stream = (some c, (c, last) :: after)) (hslash : c ≠ byte '/') :
    Ends Ahead (lexFound h fuel token c) ((c, last) :: after) fun o =>
      (o.result = none ↔ h.charSigned = false ∧ h.RunsOff stream) ∧ Consumes after o := by
  rw [runsOff_token_iff hpeek hslash]
  by_cases hmark : c = byte '"'
  · subst hmark
    simp only [true_and]
    exact lexFound_string hfuel token
  · intro s hs
    obtain ⟨hsome, hconsumes⟩ := lexFound_returns (Nat.lt_of_succ_lt hfuel) token hmark s hs
    exact ⟨iff_of_false hsome fun hruns => hmark hruns.2.1, hconsumes⟩

/-- Two suffixes with the same text are the same. -/
theorem eq_of_suffix {rest rest' : List (UInt8 × Bool)} (hrest : rest <:+ after)
    (hrest' : rest' <:+ after) (hmap : rest.map Prod.fst = rest'.map Prod.fst) : rest = rest' := by
  have hlength := congrArg List.length hmap
  rw [List.length_map, List.length_map] at hlength
  exact (List.suffix_of_suffix_length_le hrest hrest' (Nat.le_of_eq hlength)).eq_of_length hlength

/-- The loop of `Lex` where it finds a token. -/
theorem lexLoop_token {n : Nat} {t : Lexer}
    (hresult : (lexBody h fuel token () s).result = (lexFound h fuel token c t).result.map .inr)
    (hstate : (lexBody h fuel token () s).state = (lexFound h fuel token c t).state)
    (hnone : (lexFound h fuel token c t).result = none ↔ h.charSigned = false ∧ h.RunsOff stream)
    (hconsumes : Consumes after (lexFound h fuel token c t))
    (hshort : after.length < stream.length) :
    CallLaw h stream (loop (lexBody h fuel token) (n + 1) () s) := by
  cases hr : (lexFound h fuel token c t).result with
  | none =>
    rw [hr] at hresult
    obtain ⟨hs, hruns⟩ := hnone.mp hr
    exact .of_stuck (loop_of_none hresult n) hs hruns
  | some r =>
    rw [hr] at hresult
    obtain ⟨hlex, hend⟩ := loop_of_inr hresult n
    refine .of_returned hlex (fun hruns => ?_) fun hdone heof => ?_
    · rw [hnone.mpr hruns] at hr
      cases hr
    · obtain ⟨done, token'⟩ := r
      obtain rfl : done = true := hdone
      rw [hend, hstate]
      exact Nat.lt_of_le_of_lt (hconsumes token' hr heof).length_le hshort

/-- What `ProcessComment` comes to decides how the loop goes on. -/
theorem lexBody_comment {t : Lexer}
    (hresult : (lexBody h fuel token () s).result = (lexChar h fuel token (byte '/') t).result)
    (hstate : (lexBody h fuel token () s).state = (lexChar h fuel token (byte '/') t).state) :
    (lexBody h fuel token () s).result = ((processComment h fuel t).result.map fun done =>
        if done then .inl () else .inr (false, token)) ∧
      (lexBody h fuel token () s).state = (processComment h fuel t).state := by
  rw [hresult, hstate, lexChar_comment]
  cases hdone : (processComment h fuel t).result with
  | none =>
    rw [bind_of_none hdone]
    exact ⟨rfl, rfl⟩
  | some done =>
    rw [bind_of_some hdone]
    cases done with
    | false => exact ⟨rfl, rfl⟩
    | true => exact ⟨rfl, rfl⟩

theorem processComment_within (h : Host) (fuel : Nat) (c : UInt8) (last : Bool)
    (after : List (UInt8 × Bool)) :
    Ends Ahead (processComment h fuel) ((c, last) :: after) fun o =>
      ∀ done, o.result = some done → o.state.Within after := by
  refine consumeChar_ahead.ends_bind (fun _ _ _ _ _ ho => ho) fun s hs => ?_
  exact (steady_within h fuel after).behindSlash s ⟨after, List.suffix_refl _, hs⟩

/-- Behind a comment the law is that for the rest. -/
theorem CallLaw.behind {o o' : Outcome Lexer Event (Bool × Token)} {rest : List (UInt8 × Bool)}
    (h' : CallLaw h rest o') (hresult : o.result = o'.result) (hstate : o.state = o'.state)
    (hruns : h.charSigned = false → (h.RunsOff stream ↔ h.RunsOff rest))
    (hshort : rest.length < stream.length) : CallLaw h stream o := by
  obtain ⟨hnone, hconsumes⟩ := h'
  refine ⟨?_, fun token htoken heof => ?_⟩
  · rw [hresult, hnone]
    exact and_congr_right fun hs => (hruns hs).symm
  · rw [hresult] at htoken
    rw [hstate]
    exact Nat.lt_trans (hconsumes token htoken heof) hshort

/-- The loop of `Lex` where it finds a comment, by the law for what is behind it. -/
theorem lexLoop_comment {n : Nat} {t : Lexer} (hafterfuel : after.length + 2 < fuel)
    (hpeek : peeked stream = (some (byte '/'), (byte '/', last) :: after))
    (hahead : t.Ahead ((byte '/', last) :: after)) (hshort : after.length < stream.length)
    (hresult : (lexBody h fuel token () s).result = (processComment h fuel t).result.map fun done =>
      if done then .inl () else .inr (false, token))
    (hstate : (lexBody h fuel token () s).state = (processComment h fuel t).state)
    (ih : ∀ rest, rest <:+ after →
      Ends Ahead (loop (lexBody h fuel token) n ()) rest (CallLaw h rest)) :
    CallLaw h stream (loop (lexBody h fuel token) (n + 1) () s) := by
  have hruns := fun hs => runsOff_comment_iff (h := h) hpeek rfl hs
  have hlength : (after.map Prod.fst).length + 2 < fuel := by rwa [List.length_map]
  have hcomes := processComment_comes (h := h) hlength (byte '/') _ hahead.before
  cases hverdict : commentVerdict h (after.map Prod.fst) with
  | none =>
    rw [hverdict] at hcomes
    rw [show (processComment h fuel t).result = none from hcomes] at hresult
    have hs := (commentVerdict_eq_none_iff.mp hverdict).1
    exact .of_stuck (loop_of_none hresult n) hs ((hruns hs).mpr (.inl hverdict))
  | some verdict =>
    rw [hverdict] at hcomes
    cases verdict with
    | none =>
      rw [hcomes.1] at hresult
      refine .of_returned (loop_of_inr hresult n).1 (fun hoff => ?_) nofun
      rcases (hruns hoff.1).mp hoff.2 with hnone | ⟨rest, hrest, -⟩
      · rw [hverdict] at hnone
        cases hnone
      · rw [hverdict] at hrest
        cases hrest
    | some text =>
      rw [hcomes.1] at hresult
      obtain ⟨hlex, hend⟩ := loop_of_inl hresult n
      obtain ⟨rest, hsuffix, hrest⟩ :=
        processComment_within h fuel (byte '/') last after t hahead true hcomes.1
      have htext : rest.map Prod.fst = text := by
        rw [← hrest.before.rest, hcomes.2.1]
      rw [hstate] at hlex hend
      refine (ih rest hsuffix _ hrest).behind hlex hend (fun hs => ?_)
        (Nat.lt_of_le_of_lt hsuffix.length_le hshort)
      rw [hruns hs, hverdict]
      constructor
      · rintro (hnone | ⟨rest', heq, hsuffix', hoff⟩)
        · cases hnone
        · have hmap := htext.trans (Option.some.inj (Option.some.inj heq))
          rwa [eq_of_suffix hsuffix hsuffix' hmap]
      · exact fun hoff => .inr ⟨rest, by rw [htext], hsuffix, hoff⟩

/-- **Every call**, by induction on the fuel. Behind a comment less of the file is left. -/
theorem lexLoop_law (hfuel : stream.length + 1 < fuel) {n : Nat} (hn : stream.length < n)
    (token : Token) :
    Ends Ahead (loop (lexBody h fuel token) n ()) stream (CallLaw h stream) := by
  induction n generalizing stream with
  | zero => exact absurd hn (Nat.not_lt_zero _)
  | succ n ih =>
    intro s hs
    obtain ⟨hresult, hahead, -⟩ := peekChar_true_ahead stream s hs
    have hfound := peeked_found stream
    have hsuffix := peeked_suffix stream
    cases hpeek : (peeked stream).1 with
    | none =>
      rw [hpeek] at hresult
      obtain ⟨hlex, -⟩ := loop_of_inr (lexBody_apply hresult).1 n
      exact .of_returned hlex (fun hruns => not_runsOff_of_none hpeek hruns.2)
        fun _ heof => absurd rfl heof
    | some c =>
      obtain ⟨last, after, hafter⟩ := hfound c hpeek
      have hpeeked : peeked stream = (some c, (c, last) :: after) := Prod.ext hpeek hafter
      rw [hpeek] at hresult
      rw [hafter] at hahead hsuffix
      have hshort : after.length < stream.length := hsuffix.length_le
      have hafterfuel : after.length + 2 < fuel := by omega
      obtain ⟨hbody, hstate⟩ := lexBody_apply hresult
      by_cases hslash : c = byte '/'
      · subst hslash
        obtain ⟨hbody, hstate⟩ := lexBody_comment hbody hstate
        refine lexLoop_comment hafterfuel hpeeked hahead hshort hbody hstate fun rest hrest => ?_
        have hle := hrest.length_le
        exact ih (by omega) (by omega)
      · obtain ⟨hnone, hconsumes⟩ := lexFound_law hafterfuel token hpeeked hslash _ hahead
        simp only [lexChar_found hslash, map_apply] at hbody hstate
        exact lexLoop_token hbody hstate hnone hconsumes hshort

end Lexer

/-! ## The law -/

variable {chunks : List (List UInt8)} {fuel : Nat} {s : Lexer} {token : Token}

theorem Lexer.length_stream (s : Lexer) : s.stream.length = s.rest.length := by
  rw [← List.length_map (f := Prod.fst), Lexer.stream_map_fst]

/-- One call for the file. -/
theorem Lexer.Called.law (hchunks : ∀ chunk ∈ chunks, chunk ≠ [])
    (hfuel : chunks.flatten.length + 2 < fuel) (hs : Lexer.Called h fuel { src := chunks } s) :
    Lexer.CallLaw h s.stream (Lexer.lex h fuel s) := by
  obtain ⟨stream, hsuffix, hahead⟩ := hs.steady (Lexer.steady_within h fuel _)
    ⟨_, List.suffix_refl _, ahead_opened hchunks⟩
  have hlength := hsuffix.length_le
  rw [length_opened] at hlength
  rw [hahead.stream, Lexer.lex_apply]
  exact Lexer.lexLoop_law (by omega) (by omega) _ s hahead

/-- If all calls return, as many calls as there are bytes left, and one more, are enough. -/
theorem lexAll_ends (hchunks : ∀ chunk ∈ chunks, chunk ≠ [])
    (hfuel : chunks.flatten.length + 2 < fuel)
    (hreturns : ∀ s, Lexer.Called h fuel { src := chunks } s → (Lexer.lex h fuel s).result ≠ none)
    (n : Nat) (hs : Lexer.Called h fuel { src := chunks } s) (hn : s.rest.length < n) :
    (lexAll h fuel n s).2.1 ≠ .outOfFuel := by
  induction n generalizing s with
  | zero => exact absurd hn (Nat.not_lt_zero _)
  | succ n ih =>
    rw [lexAll_succ]
    cases hresult : (Lexer.lex h fuel s).result with
    | none => exact absurd hresult (hreturns s hs)
    | some r =>
      obtain ⟨done, token⟩ := r
      cases done with
      | false => simp
      | true =>
        by_cases heof : token.type = .eof
        · simp [heof]
        · simp only [if_neg heof]
          have hshort := (hs.law hchunks hfuel).2 token hresult heof
          rw [Lexer.length_stream, Lexer.length_stream] at hshort
          exact ih (hs.next hresult) (by omega)

/-- **Termination.** All calls of `Lex` for a file return, each takes something, and together they
come to its end or to an error, just in case plain `char` is signed, or no call starts where the
file ends in a comment or in a string. -/
theorem terminates_iff (h : Host) (hchunks : ∀ chunk ∈ chunks, chunk ≠ []) :
    Terminates h chunks ↔ h.charSigned = true ∨ ∀ fuel s, chunks.flatten.length + 2 < fuel →
      Lexer.Called h fuel { src := chunks } s → ¬ h.RunsOff s.stream := by
  constructor
  · intro hterminates
    cases hs : h.charSigned with
    | true => exact .inl rfl
    | false =>
      refine .inr fun fuel s hfuel hcalled hruns => hterminates.returns fuel s hfuel hcalled ?_
      exact (hcalled.law hchunks hfuel).1.mpr ⟨hs, hruns⟩
  · intro hright
    have hreturns : ∀ fuel s, chunks.flatten.length + 2 < fuel →
        Lexer.Called h fuel { src := chunks } s → (Lexer.lex h fuel s).result ≠ none := by
      intro fuel s hfuel hcalled hnone
      obtain ⟨hs, hruns⟩ := (hcalled.law hchunks hfuel).1.mp hnone
      rcases hright with htrue | hclear
      · rw [hs] at htrue
        cases htrue
      · exact hclear fuel s hfuel hcalled hruns
    refine ⟨hreturns, fun fuel s token hfuel hcalled hresult heof => ?_, fun fuel hfuel => ?_⟩
    · rw [← Lexer.length_stream, ← Lexer.length_stream]
      exact (hcalled.law hchunks hfuel).2 token hresult heof
    · exact lexAll_ends hchunks hfuel (fun s => hreturns fuel s hfuel) _ .first (Nat.lt_succ_self _)

/-- A file that ends in a comment, where plain `char` is signed. -/
theorem terminates_iff_signed : Terminates {} [bytes "a /", bytes "* b"] :=
  (terminates_iff {} (by decide)).mpr (.inl rfl)

/-- The same file, where plain `char` is unsigned. -/
theorem unsigned_not_terminating :
    ¬ Terminates { charSigned := false } [bytes "a /", bytes "* b"] :=
  fun hterminates => hterminates.ends 12 (by decide) (by decide)

end HcGen
