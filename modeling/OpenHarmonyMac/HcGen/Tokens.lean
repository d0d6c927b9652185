import OpenHarmonyMac.HcGen.Comments
import OpenHarmonyMac.HcGen.Numbers

/-!
# The calls of `Lex`

A call skips blanks and comments, and takes the token that it finds.

* `Lexer.findToken`, `Lexer.lexFound` — the two halves of `Lex`
* `Lexer.Steady` — what `GetChar` and `PeekChar` keep is kept by all that is made of them
* `Lexer.Called` — where the calls for one file start
-/

namespace HcGen

open Infra Infra.Program

namespace Lexer

variable {h : Host} {fuel : Nat} {s : Lexer} {token : Token} {c : UInt8}

/-! ## The two halves of a call -/

/-- The loop of `Lex`, once. -/
def lexBody (h : Host) (fuel : Nat) (token : Token) (_ : Unit) :
    LexM (Unit ⊕ (Bool × Token)) := do
  match ← peekChar true with
  | none => return .inr (true, { token with type := .eof })
  | some c => lexChar h fuel token c

/-- What `InitToken` gives at this line. -/
def freshToken (lineno : Nat) : Token where
  type := .none
  numval := 0
  strval := []
  lineNo := lineno

theorem lex_apply (h : Host) (fuel : Nat) (s : Lexer) : lex h fuel s =
    ⟨(loop (lexBody h fuel (freshToken s.lineno)) fuel () s).result,
      (loop (lexBody h fuel (freshToken s.lineno)) fuel () s).state,
      .lex :: (loop (lexBody h fuel (freshToken s.lineno)) fuel () s).trace⟩ := rfl

/-- The same up to the first character of a token. -/
def findBody (h : Host) (fuel : Nat) (_ : Unit) : LexM (Unit ⊕ Option UInt8) := do
  match ← peekChar true with
  | none => return .inr none
  | some c =>
    if c = byte '/' then
      if ← processComment h fuel then return .inl () else return .inr none
    else return .inr (some c)

/-- `Lex` up to the first character of a token, which it gives. -/
def findToken (h : Host) (fuel : Nat) : LexM (Option UInt8) := loop (findBody h fuel) fuel ()

/-- `Lex` from the first character of a token on. -/
def lexFound (h : Host) (fuel : Nat) (token : Token) (c : UInt8) : LexM (Bool × Token) :=
  if c = byte '#' then lexInclude h fuel token
  else if isalpha c then (true, ·) <$> lexFromLiteral h fuel token
  else if isNum c then lexFromNumber h fuel token
  else setTokenCharacter h fuel c token

theorem lexChar_comment (h : Host) (fuel : Nat) (token : Token) :
    lexChar h fuel token (byte '/') =
      (processComment h fuel >>= fun done =>
        if done then pure (.inl ()) else pure (.inr (false, token))) := rfl

theorem lexChar_found (hc : c ≠ byte '/') (s : Lexer) :
    lexChar h fuel token c s = (.inr <$> lexFound h fuel token c : LexM _) s := by
  unfold lexChar lexFound
  rw [if_neg hc]
  split
  · rfl
  · split
    · show ((fun token => Sum.inr (true, token)) <$> lexFromLiteral h fuel token : LexM _) s = _
      rw [map_apply, map_apply, map_apply, Option.map_map]
      rfl
    · split <;> rfl

/-! ## Comments, numbers and strings behind their first character -/

def behindSlash (h : Host) (fuel : Nat) : LexM Bool := do
  let (c, found) ← getChar h fuel h.getCharSkipsSpace
  if !found then
    error "unterminated comment"
    return false
  else commentBody h fuel c

def behindNumber (h : Host) (fuel : Nat) (token : Token) (c : UInt8) : LexM (Bool × Token) := do
  let (value, v, errno) ← lexNumber h fuel c
  if errno then
    error ("illegal number: " ++ text value)
    return (false, token)
  else
    let s ← state
    return (true, { token with type := .number, numval := UInt64.ofInt v, lineNo := s.lineno })

theorem lexFromNumber_eq (h : Host) (fuel : Nat) (token : Token) : lexFromNumber h fuel token =
    (getChar h fuel false >>= fun r => behindNumber h fuel token r.1) := rfl

/-- The loop of `LexFromString`, once. -/
def stringBody (h : Host) (fuel : Nat) (value : List UInt8) :
    LexM (List UInt8 ⊕ Option (List UInt8 × UInt8)) := do
  let (c, found) ← getChar h fuel false
  if found && c != byte '"' then
    if c = byte '\\' then
      let (c, _) ← getChar h fuel false
      if c ≠ byte '"' then
        error "Invalid escape character."
        return .inr none
      else return .inl (value ++ [c])
    else return .inl (value ++ [c])
  else return .inr (some (value, c))

/-- What `LexFromString` makes of the end of the loop. -/
def stringEnd (token : Token) : Option (List UInt8 × UInt8) → LexM (Bool × Token)
  | none => return (false, token)
  | some (value, c) => do
    if c ≠ byte '"' then
      error "unterminated string"
      return (false, token)
    else
      let s ← state
      return (true, { token with type := .string, strval := value, lineNo := s.lineno })

theorem lexFromString_eq (h : Host) (fuel : Nat) (token : Token) : lexFromString h fuel token =
    (getChar h fuel false >>= fun _ => loop (stringBody h fuel) fuel [] >>= stringEnd token) := rfl

/-! ## What the readers keep -/

/-- `GetChar` and `PeekChar` keep `I`. -/
structure Steady (h : Host) (fuel : Nat) (I : Lexer → Prop) : Prop where
  getChar : ∀ skipSpace, Keeps I (getChar h fuel skipSpace)
  peekChar : ∀ skipSpace, Keeps I (peekChar skipSpace)

namespace Steady

variable {I : Lexer → Prop} (hI : Steady h fuel I)

include hI

theorem consumeChar : Keeps I (consumeChar h fuel) :=
  (hI.getChar false).bind fun _ => Keeps.pure _

omit hI in
theorem error (text : String) : Keeps I (error text) :=
  Keeps.state.bind fun _ => Keeps.emit _

omit hI in
theorem error_then {α : Type} (text : String) (a : α) :
    Keeps I (Lexer.error text >>= fun _ => pure a) :=
  (Steady.error text).bind fun _ => Keeps.pure _

theorem commentBody (c : UInt8) : Keeps I (commentBody h fuel c) := by
  refine Keeps.ite ?_ (Keeps.ite ?_ (Steady.error_then _ _))
  · -- a comment to the end of the line
    refine Keeps.bind (Keeps.loop (fun c => Keeps.ite (Keeps.pure _) ?_) fuel c) fun c =>
      Keeps.ite (Steady.error_then _ _) (Keeps.pure _)
    exact (hI.getChar _).bind fun _ => Keeps.pure _
  · -- a comment between stars
    refine Keeps.bind (Keeps.loop (fun _ => (hI.getChar _).bind ?_) fuel ()) ?_
    · rintro ⟨c, found⟩
      refine Keeps.ite (Keeps.pure _) (Keeps.ite ?_ (Keeps.pure _))
      exact (hI.getChar _).bind fun _ => Keeps.pure _
    · rintro (_ | c)
      · exact Keeps.pure _
      · exact Keeps.ite (Steady.error_then _ _) (Keeps.pure _)

theorem behindSlash : Keeps I (behindSlash h fuel) := by
  refine (hI.getChar _).bind ?_
  rintro ⟨c, found⟩
  exact Keeps.ite (Steady.error_then _ _) (hI.commentBody c)

theorem processComment : Keeps I (processComment h fuel) :=
  hI.consumeChar.bind fun _ => hI.behindSlash

theorem stringLoop (token : Token) :
    Keeps I (loop (stringBody h fuel) fuel [] >>= stringEnd token) := by
  refine Keeps.bind (Keeps.loop (fun value => ?_) fuel []) ?_
  · refine (hI.getChar _).bind ?_
    rintro ⟨c, found⟩
    refine Keeps.ite (Keeps.ite ?_ (Keeps.pure _)) (Keeps.pure _)
    refine (hI.getChar _).bind ?_
    rintro ⟨c, found⟩
    exact Keeps.ite (Steady.error_then _ _) (Keeps.pure _)
  · rintro (_ | ⟨value, c⟩)
    · exact Keeps.pure _
    · exact Keeps.ite (Steady.error_then _ _) (Keeps.state.bind fun _ => Keeps.pure _)

theorem lexFromString (token : Token) : Keeps I (lexFromString h fuel token) :=
  (hI.getChar _).bind fun _ => hI.stringLoop token

theorem collect (skipSpace : Bool) (accept : UInt8 → Bool) (value : List UInt8) :
    Keeps I (collect h fuel skipSpace accept value) := by
  refine Keeps.loop (fun value => (hI.peekChar _).bind ?_) fuel value
  rintro (_ | c)
  · exact Keeps.pure _
  · exact Keeps.ite (hI.consumeChar.bind fun _ => Keeps.pure _) (Keeps.pure _)

theorem lexHexAndBinaryNum (c : UInt8) : Keeps I (lexHexAndBinaryNum h fuel c) := by
  refine Keeps.ite ?_ (Keeps.ite ?_ (Keeps.pure _))
  · exact hI.consumeChar.bind fun _ => (hI.collect _ _ _).bind fun _ => Keeps.pure _
  · exact hI.consumeChar.bind fun _ => (hI.collect _ _ _).bind fun _ => Keeps.pure _

theorem lexNumber (c : UInt8) : Keeps I (lexNumber h fuel c) := by
  refine Keeps.ite ((hI.peekChar _).bind ?_) ((hI.collect _ _ _).bind fun _ => Keeps.pure _)
  rintro (_ | c)
  · exact Keeps.pure _
  · exact Keeps.ite ((hI.collect _ _ _).bind fun _ => Keeps.pure _) (hI.lexHexAndBinaryNum c)

theorem behindNumber (token : Token) (c : UInt8) : Keeps I (behindNumber h fuel token c) := by
  refine (hI.lexNumber c).bind ?_
  rintro ⟨value, v, errno⟩
  exact Keeps.ite (Steady.error_then _ _) (Keeps.state.bind fun _ => Keeps.pure _)

theorem lexFromNumber (token : Token) : Keeps I (lexFromNumber h fuel token) := by
  rw [lexFromNumber_eq]
  exact (hI.getChar _).bind fun r => hI.behindNumber token r.1

theorem lexFromLiteral (token : Token) : Keeps I (lexFromLiteral h fuel token) :=
  (hI.collect _ _ _).bind fun _ => Keeps.state.bind fun _ => Keeps.pure _

theorem lexInclude (token : Token) : Keeps I (lexInclude h fuel token) :=
  hI.consumeChar.bind fun _ => (hI.lexFromLiteral token).bind fun _ =>
    Keeps.ite (Keeps.pure _) (Keeps.pure _)

theorem setTokenCharacter (c : UInt8) (token : Token) :
    Keeps I (setTokenCharacter h fuel c token) := by
  refine Keeps.ite ?_ (Keeps.ite (hI.lexFromString token) (Keeps.ite (hI.lexFromNumber token)
    (Keeps.ite (Keeps.pure _) (Steady.error_then _ _))))
  exact hI.consumeChar.bind fun _ => Keeps.state.bind fun _ => Keeps.pure _

theorem lexFound (token : Token) (c : UInt8) : Keeps I (lexFound h fuel token c) :=
  Keeps.ite (hI.lexInclude token) (Keeps.ite (hI.lexFromLiteral token).map
    (Keeps.ite (hI.lexFromNumber token) (hI.setTokenCharacter c token)))

theorem lexChar (token : Token) (c : UInt8) : Keeps I (lexChar h fuel token c) := by
  refine Keeps.ite (hI.lexInclude token).map (Keeps.ite ((hI.lexFromLiteral token).bind
    fun _ => Keeps.pure _) (Keeps.ite (hI.lexFromNumber token).map (Keeps.ite ?_
    (hI.setTokenCharacter c token).map)))
  exact hI.processComment.bind fun _ => Keeps.ite (Keeps.pure _) (Keeps.pure _)

theorem lex : Keeps I (lex h fuel) := by
  refine (Keeps.emit _).bind fun _ => (Keeps.state.bind fun _ => Keeps.pure _).bind fun token => ?_
  refine Keeps.loop (fun _ => (hI.peekChar _).bind ?_) fuel ()
  rintro (_ | c)
  · exact Keeps.pure _
  · exact hI.lexChar token c

theorem findToken : Keeps I (findToken h fuel) := by
  refine Keeps.loop (fun _ => (hI.peekChar _).bind ?_) fuel ()
  rintro (_ | c)
  · exact Keeps.pure _
  · exact Keeps.ite (hI.processComment.bind fun _ => Keeps.ite (Keeps.pure _) (Keeps.pure _))
      (Keeps.pure _)

end Steady

/-! ## A call and its halves -/

/-- From one place in the file, the loop of `Lex` and that of `findToken` do the same: they end
without a token, go on behind a comment, or come to the first character of one. -/
inductive Turn (h : Host) (fuel : Nat) (token : Token) (s : Lexer) : Prop
  | stuck (hlex : (lexBody h fuel token () s).result = none)
  | over (r : Bool × Token) (hlex : (lexBody h fuel token () s).result = some (.inr r))
      (hr : r.1 = true → r.2.type = .eof)
  | comment (hlex : (lexBody h fuel token () s).result = some (.inl ()))
      (hfind : (findBody h fuel () s).result = some (.inl ()))
      (hstate : (lexBody h fuel token () s).state = (findBody h fuel () s).state)
  | found (c : UInt8) (hfind : (findBody h fuel () s).result = some (.inr (some c)))
      (hlex : (lexBody h fuel token () s).result =
        (lexFound h fuel token c (findBody h fuel () s).state).result.map .inr)
      (hstate : (lexBody h fuel token () s).state =
        (lexFound h fuel token c (findBody h fuel () s).state).state)

theorem peekChar_result (skipSpace : Bool) (s : Lexer) :
    ∃ found, (peekChar skipSpace s).result = some found := by
  cases skipSpace with
  | false => exact ⟨_, by rw [peekChar_false_apply]⟩
  | true =>
    rw [peekChar_true_apply]
    split
    · exact ⟨_, rfl⟩
    · exact ⟨_, rfl⟩

theorem turn (h : Host) (fuel : Nat) (token : Token) (s : Lexer) : Turn h fuel token s := by
  obtain ⟨found, hpeek⟩ := peekChar_result true s
  have hlex := bind_of_some (f := fun found => match found with
    | none => pure (.inr (true, { token with type := .eof }))
    | some c => lexChar h fuel token c) hpeek
  have hfind := bind_of_some (f := fun found => match found with
    | none => pure (.inr none)
    | some c =>
      if c = byte '/' then
        processComment h fuel >>= fun done => if done then pure (.inl ()) else pure (.inr none)
      else (pure (.inr (some c)) : LexM (Unit ⊕ Option UInt8))) hpeek
  change lexBody h fuel token () s = _ at hlex
  change findBody h fuel () s = _ at hfind
  cases found with
  | none => exact .over (true, { token with type := .eof }) (by rw [hlex]; rfl) fun _ => rfl
  | some c =>
    by_cases hc : c = byte '/'
    · subst hc
      simp only [if_pos, lexChar_comment] at hlex hfind
      cases hdone : (processComment h fuel (peekChar true s).state).result with
      | none =>
        rw [bind_of_none hdone] at hlex
        exact .stuck (by rw [hlex])
      | some done =>
        rw [bind_of_some hdone] at hlex hfind
        cases done with
        | false => exact .over (false, token) (by rw [hlex]; rfl) (by simp)
        | true => exact .comment (by rw [hlex]; rfl) (by rw [hfind]; rfl) (by rw [hlex, hfind]; rfl)
    · simp only [if_neg hc, lexChar_found hc, map_apply] at hlex hfind
      refine .found c (by rw [hfind]; rfl) ?_ ?_
      · rw [hlex, hfind]
        rfl
      · rw [hlex, hfind]
        rfl

theorem loop_found {fresh : Token} (htype : token.type ≠ .eof) (n : Nat) (s : Lexer)
    (hlex : (loop (lexBody h fuel fresh) n () s).result = some (true, token)) :
    ∃ c, (loop (findBody h fuel) n () s).result = some (some c) ∧
      (lexFound h fuel fresh c (loop (findBody h fuel) n () s).state).result =
        some (true, token) ∧
      (loop (lexBody h fuel fresh) n () s).state =
        (lexFound h fuel fresh c (loop (findBody h fuel) n () s).state).state := by
  induction n generalizing s with
  | zero => cases hlex
  | succ n ih =>
    rcases turn h fuel fresh s with
      hstuck | ⟨r, hturn, hr⟩ | ⟨hturn, hfind, hstate⟩ | ⟨c, hfind, hturn, hstate⟩
    · rw [loop_of_none hstuck] at hlex
      cases hlex
    · rw [(loop_of_inr hturn n).1] at hlex
      obtain rfl := Option.some.inj hlex
      exact absurd (hr rfl) htype
    · obtain ⟨hresult, hnext⟩ := loop_of_inl hturn n
      obtain ⟨hresult', hnext'⟩ := loop_of_inl hfind n
      rw [hresult, hstate] at hlex
      rw [hresult', hnext, hnext', hstate]
      exact ih _ hlex
    · obtain ⟨hresult, hnext⟩ := loop_of_inr hfind n
      rw [hresult, hnext]
      cases hfound : (lexFound h fuel fresh c (findBody h fuel () s).state).result with
      | none =>
        rw [hfound] at hturn
        rw [loop_of_none hturn] at hlex
        cases hlex
      | some r =>
        rw [hfound] at hturn
        obtain ⟨hresult', hnext'⟩ := loop_of_inr hturn n
        obtain rfl := Option.some.inj (hresult'.symm.trans hlex)
        exact ⟨c, rfl, hfound, hnext'.trans hstate⟩

/-- **The token that a call returns** is taken from where `findToken` stops. -/
theorem lex_found (hlex : (lex h fuel s).result = some (true, token))
    (htype : token.type ≠ .eof) : ∃ c, (findToken h fuel s).result = some (some c) ∧
      (lexFound h fuel (freshToken s.lineno) c (findToken h fuel s).state).result =
        some (true, token) ∧
      (lex h fuel s).state =
        (lexFound h fuel (freshToken s.lineno) c (findToken h fuel s).state).state :=
  loop_found htype fuel s hlex

/-- A call where `PeekChar` finds the first character of a token at once. -/
theorem lex_at {t : Lexer} {l : List Event} (hfuel : 0 < fuel) (hc : c ≠ byte '/')
    (hpeek : peekChar true s = ⟨some (some c), t, l⟩) : lex h fuel s =
      ⟨(lexFound h fuel (freshToken s.lineno) c t).result,
        (lexFound h fuel (freshToken s.lineno) c t).state,
        .lex :: (l ++ (lexFound h fuel (freshToken s.lineno) c t).trace)⟩ := by
  obtain ⟨n, rfl⟩ := Nat.exists_eq_succ_of_ne_zero (Nat.ne_of_gt hfuel)
  have hbody : lexBody h (n + 1) (freshToken s.lineno) () s =
      ⟨(lexFound h (n + 1) (freshToken s.lineno) c t).result.map .inr,
        (lexFound h (n + 1) (freshToken s.lineno) c t).state,
        l ++ (lexFound h (n + 1) (freshToken s.lineno) c t).trace⟩ := by
    rw [lexBody, bind_of_some (by rw [hpeek]), hpeek]
    simp only [lexChar_found hc, map_apply]
  rw [lex_apply, loop]
  cases hr : (lexFound h (n + 1) (freshToken s.lineno) c t).result with
  | none =>
    rw [hr, Option.map_none] at hbody
    rw [bind_of_none (by rw [hbody]), hbody]
  | some r =>
    rw [hr, Option.map_some] at hbody
    rw [bind_of_some (by rw [hbody]), hbody]
    simp

/-! ## Where the lexer is -/

/-- What is ahead of the lexer is the end of `stream`. -/
def Within (stream : List (UInt8 × Bool)) (s : Lexer) : Prop :=
  ∃ stream', stream' <:+ stream ∧ s.Ahead stream'

variable {stream : List (UInt8 × Bool)}

theorem Within.congr {t : Lexer} (hs : s.Within stream)
    (ht : t.buffer = s.buffer ∧ t.src = s.src) : t.Within stream := by
  obtain ⟨stream', hsuffix, hahead⟩ := hs
  exact ⟨stream', hsuffix, hahead.congr ht⟩

theorem peeked_suffix (stream : List (UInt8 × Bool)) : (peeked stream).2 <:+ stream := by
  induction stream with
  | nil => exact List.suffix_refl _
  | cons x stream ih =>
    rw [peeked]
    split
    · split
      · exact List.suffix_cons _ _
      · exact ih.trans (List.suffix_cons _ _)
    · exact List.suffix_refl _

theorem peeked_clear (stream : List (UInt8 × Bool)) : ∀ c, (peeked stream).1 = some c →
    isBlank c = false := by
  induction stream with
  | nil => simp [peeked]
  | cons x stream ih =>
    intro c hc
    rw [peeked] at hc
    split at hc
    · split at hc
      · cases hc
      · exact ih c hc
    · next hblank =>
      obtain rfl := Option.some.inj hc
      simpa using hblank

theorem getRawChar_within : Keeps (Within stream) getRawChar := by
  rintro s ⟨stream', hsuffix, hs⟩ c -
  cases stream' with
  | nil => exact ⟨[], hsuffix, (getRawChar_ahead_nil s hs).2.1⟩
  | cons x stream' =>
    exact ⟨stream', (List.suffix_cons _ _).trans hsuffix, (getRawChar_ahead_cons s hs).2.1⟩

theorem steady_within (h : Host) (fuel : Nat) (stream : List (UInt8 × Bool)) :
    Steady h fuel (Within stream) where
  getChar skipSpace := by
    refine getRawChar_within.bind fun chr => Keeps.bind (Keeps.ite ?_ (Keeps.pure _)) fun chr => ?_
    · exact Keeps.loop (fun chr => Keeps.ite getRawChar_within.map (Keeps.pure _)) fuel chr
    · refine Keeps.bind (fun s hs _ _ => ?_) fun _ => Keeps.pure _
      show Within stream (if chr = byte '\n' then _ else _)
      split
      · exact hs.congr ⟨rfl, rfl⟩
      · exact hs
  peekChar skipSpace := by
    rintro s ⟨stream', hsuffix, hs⟩ found -
    cases skipSpace with
    | false => exact ⟨stream', hsuffix, (peekChar_false_ahead stream' s hs).2.1⟩
    | true => exact ⟨_, (peeked_suffix _).trans hsuffix, (peekChar_true_ahead stream' s hs).2.1⟩

/-- The lexer is in front of `c`, and `c` is not the beginning of blanks or of a comment. -/
structure Facing (stream : List (UInt8 × Bool)) (c : UInt8) (s : Lexer) : Prop where
  slash : c ≠ byte '/'
  clear : isBlank c = false
  ahead : ∃ last stream', (c, last) :: stream' <:+ stream ∧ s.Ahead ((c, last) :: stream')

/-- `findToken` stops in front of the character that it gives. -/
theorem findToken_facing : Ensures (Within stream) (findToken h fuel)
    fun found s => ∀ c, found = some c → Facing stream c s := by
  have hkeeps := steady_within h fuel stream
  refine Ensures.loop (J := fun _ => Within stream) (fun _ => ?_) fuel ()
  refine Ensures.bind (Q := fun found s => Within stream s ∧ ∀ c, found = some c →
    isBlank c = false ∧ ∃ last stream', (c, last) :: stream' <:+ stream ∧
      s.Ahead ((c, last) :: stream')) ?_ ?_
  · rintro s ⟨stream', hsuffix, hs⟩ found hfound
    obtain ⟨hresult, hahead, -⟩ := peekChar_true_ahead stream' s hs
    have hwithin := (peeked_suffix stream').trans hsuffix
    refine ⟨⟨_, hwithin, hahead⟩, fun c hc => ?_⟩
    subst hc
    have hpeeked : (peeked stream').1 = some c := Option.some.inj (hresult.symm.trans hfound)
    obtain ⟨last, rest, hrest⟩ := peeked_found stream' c hpeeked
    rw [hrest] at hwithin hahead
    exact ⟨peeked_clear stream' c hpeeked, last, rest, hwithin, hahead⟩
  · rintro (_ | c)
    · exact Ensures.pure fun _ _ => by simp
    · refine Ensures.ite (fun _ => ?_) fun hc => ?_
      · refine Ensures.bind (Q := fun _ => Within stream)
          (fun s hs => hkeeps.processComment s hs.1) fun done => ?_
        exact Ensures.ite (fun _ => Ensures.pure fun _ hs => hs) fun _ =>
          Ensures.pure fun _ _ => by simp
      · refine Ensures.pure fun s hs c' hc' => ?_
        obtain rfl := Option.some.inj hc'
        obtain ⟨hclear, hahead⟩ := hs.2 c rfl
        exact ⟨hc, hclear, hahead⟩

/-! ## The calls for a file -/

/-- The lexer calls for a file. -/
inductive Called (h : Host) (fuel : Nat) (s₀ : Lexer) : Lexer → Prop
  | first : Called h fuel s₀ s₀
  | next {s : Lexer} {r : Bool × Token} : Called h fuel s₀ s → (lex h fuel s).result = some r →
      Called h fuel s₀ (lex h fuel s).state

/-- What `GetChar` and `PeekChar` keep holds in front of every call. -/
theorem Called.steady {s₀ : Lexer} {I : Lexer → Prop} (hs : Called h fuel s₀ s)
    (hI : Steady h fuel I) (h₀ : I s₀) : I s := by
  induction hs with
  | first => exact h₀
  | next _ hr ih => exact hI.lex _ ih _ hr

end Lexer

end HcGen
