import OpenHarmonyMac.HcGen.Reading

/-!
# Numbers

`LexFromNumber` is called where `PeekChar` has found a digit or a sign.

* `lexesNumber_iff` — when it takes the number that is there, and nothing else
-/

namespace HcGen

open Infra Infra.Program

/-! ## What a number is -/

/-- A digit of the base. -/
def isDigit (base : Nat) (c : UInt8) : Bool := isalnum c && digitValue c < base

/-- The number that digits stand for. -/
def numeral (base : Nat) (digits : List UInt8) : Nat :=
  digits.foldl (fun n c => n * base + digitValue c) 0

def signed (negative : Bool) (n : Nat) : Int := if negative then -n else n

/-- A number as it is written: its sign, the base, the digits and what follows them. -/
structure Literal where
  negative : Bool
  base : Nat
  digits : List UInt8
  rest : List UInt8
  deriving DecidableEq, Repr

namespace Literal

/-- The digits at the front of a text. -/
def ofDigits (negative : Bool) (base : Nat) (text : List UInt8) : Literal where
  negative
  base
  digits := text.takeWhile (isDigit base)
  rest := text.dropWhile (isDigit base)

/-- The base is told by what follows a leading zero. -/
def ofText : List UInt8 → Literal
  | [] => ofDigits false 10 []
  | c :: text =>
    if c = byte '+' ∨ c = byte '-' then ofDigits (c = byte '-') 10 text
    else if c ≠ byte '0' then ofDigits false 10 (c :: text)
    else
      match text with
      | [] => ofDigits false 10 [c]
      | d :: text =>
        if d = byte 'x' ∨ d = byte 'X' then ofDigits false 16 text
        else if d = byte 'b' then ofDigits false 2 text
        else if isNum d then ofDigits false 8 (d :: text)
        else ofDigits false 10 (c :: d :: text)

def value (l : Literal) : Int := signed l.negative (numeral l.base l.digits)

/-- There are digits, no other digit follows them, and 64 bits are enough for the number. -/
structure Valid (l : Literal) : Prop where
  digits : l.digits ≠ []
  ended : l.rest.head?.any isNum = false
  lower : -2 ^ 63 ≤ l.value
  upper : l.value < 2 ^ 64

end Literal

/-- The number is taken without an error, and `text` comes next. -/
def Takes (v : Int) (text : List UInt8) (o : Outcome Lexer Event (Bool × Token)) : Prop :=
  (∃ token, o.result = some (true, token) ∧ token.type = .number ∧ token.numval = UInt64.ofInt v) ∧
    o.state.rest = text ∧ ∀ e ∈ o.trace, e.Fine

/-- No number is taken, and an error is reported. -/
def Refuses (o : Outcome Lexer Event (Bool × Token)) : Prop :=
  (∃ token, o.result = some (false, token)) ∧ ∃ e ∈ o.trace, ¬ e.Fine

open Classical in
/-- What is to come of the text. -/
def NumberLaw (text : List UInt8) (o : Outcome Lexer Event (Bool × Token)) : Prop :=
  if (Literal.ofText text).Valid then
    Takes (Literal.ofText text).value (Literal.ofText text).rest o
  else Refuses o

/-- With enough fuel, the call from here does what it is to do. -/
def LexesNumber (h : Host) (s : Lexer) : Prop :=
  ∀ fuel token, s.rest.length < fuel → NumberLaw s.rest (Lexer.lexFromNumber h fuel token s)

/-! ## What `strtoll` and `PeekChar` tell -/

variable (h : Host)

/-- `strtoll` sets `errno`: the number is not one of 64 bits with a sign, or there are no digits. -/
def Host.OutOfRange (negative : Bool) (base : Nat) (digits : List UInt8) : Prop :=
  if digits = [] then h.strtollSetsEinval = true
  else
    signed negative (numeral base digits) < -2 ^ 63 ∨ 2 ^ 63 ≤ signed negative (numeral base digits)

/-- `PeekChar` skips blanks between the digits of this base. -/
def Host.SkipsBlanks (base : Nat) : Prop := base = 10 ∨ base = 8 ∧ h.peekCharSkipsSpace = true

/-- A blank follows the digits, and it is skipped. -/
def Host.BlankBehind (l : Literal) : Prop :=
  h.SkipsBlanks l.base ∧ l.rest.head?.any isBlank = true

open Classical in
/-- What `LexFromNumber` is right about: numbers below 2^63 without a blank behind them that is
skipped, and those others that `strtoll` finds out. -/
def Host.LiteralRight (l : Literal) : Prop :=
  if l.Valid then l.value < 2 ^ 63 ∧ ¬ h.BlankBehind l
  else h.OutOfRange l.negative l.base l.digits

/-- A sign may have no digits behind it. Then `strtoll` is given the digits behind the blanks. -/
def Host.NumberRight (s : Lexer) : Prop :=
  if (Literal.ofText s.rest).base = 10 ∧ (Literal.ofText s.rest).digits = [] then
    h.OutOfRange (Literal.ofText s.rest).negative 10 (Lexer.collected isNum s.stream.tail).1
  else h.LiteralRight (Literal.ofText s.rest)

/-! ## Digits -/

variable {h} {c d : UInt8} {text digits more : List UInt8} {negative : Bool} {base : Nat}

theorem isNum_iff : isNum c = true ↔ 48 ≤ c.toNat ∧ c.toNat ≤ 57 := by
  simp [isNum, byte, UInt8.le_iff_toNat_le]

/-- The digits, the small letters and the capital letters. -/
theorem isDigit_iff : isDigit base c = true ↔
    (48 ≤ c.toNat ∧ c.toNat ≤ 57 ∧ c.toNat < base + 48) ∨
      (97 ≤ c.toNat ∧ c.toNat ≤ 122 ∧ c.toNat < base + 87) ∨
      (65 ≤ c.toNat ∧ c.toNat ≤ 90 ∧ c.toNat < base + 55) := by
  have hsub : ∀ d : UInt8, d.toNat ≤ c.toNat → (c - d).toNat = c.toNat - d.toNat :=
    fun d hd => UInt8.toNat_sub_of_le c d (UInt8.le_iff_toNat_le.mpr hd)
  have h0 : (byte '0').toNat = 48 := rfl
  have ha : (byte 'a').toNat = 97 := rfl
  have hz : (byte 'z').toNat = 122 := rfl
  have hA : (byte 'A').toNat = 65 := rfl
  have hZ : (byte 'Z').toNat = 90 := rfl
  have hnumber := hsub (byte '0')
  have hsmall := hsub (byte 'a')
  have hcapital := hsub (byte 'A')
  rw [h0] at hnumber
  rw [ha] at hsmall
  rw [hA] at hcapital
  simp only [isDigit, isalnum, isalpha, digitValue, Bool.and_eq_true, Bool.or_eq_true,
    decide_eq_true_eq, isNum_iff, UInt8.le_iff_toNat_le, ha, hz, hA, hZ]
  split
  · next hnum =>
    rw [hnumber hnum.1]
    omega
  · split
    · next hletter =>
      rw [hsmall hletter.1]
      omega
    · -- a capital letter, if it is one
      omega

theorem isDigit_ten (c : UInt8) : isDigit 10 c = isNum c := by
  rw [Bool.eq_iff_iff, isDigit_iff, isNum_iff]
  omega

theorem isDigit_two (c : UInt8) : isDigit 2 c = (c == byte '0' || c == byte '1') := by
  rw [Bool.eq_iff_iff, isDigit_iff]
  simp [byte, ← UInt8.toNat_inj]
  omega

theorem isDigit_sixteen (c : UInt8) : isDigit 16 c =
    (isNum c || (byte 'a' ≤ c && c ≤ byte 'f') || (byte 'A' ≤ c && c ≤ byte 'F')) := by
  rw [Bool.eq_iff_iff, isDigit_iff]
  simp [byte, UInt8.le_iff_toNat_le, isNum]
  omega

theorem isNum_of_isDigit (hbase : base ≤ 10) (hc : isDigit base c = true) : isNum c = true := by
  rw [isDigit_iff] at hc
  rw [isNum_iff]
  omega

theorem not_isNum_of_isBlank (hc : isBlank c = true) : isNum c = false := by
  by_contra hnot
  rw [Bool.not_eq_false, isNum_iff] at hnot
  simp [isBlank, isSpace, byte, ← UInt8.toNat_inj] at hc
  omega

/-- A digit is not a sign. -/
theorem ne_sign_of_isDigit (hc : isDigit base c = true) : c ≠ byte '-' ∧ c ≠ byte '+' := by
  rw [isDigit_iff] at hc
  constructor
  · rintro rfl
    revert hc
    simp [byte]
  · rintro rfl
    revert hc
    simp [byte]

/-- More digits do not make a number smaller. -/
theorem numeral_le_append (hbase : 0 < base) (digits more : List UInt8) :
    numeral base digits ≤ numeral base (digits ++ more) := by
  rw [numeral, numeral, List.foldl_append]
  generalize digits.foldl _ 0 = n
  induction more generalizing n with
  | nil => exact Nat.le_refl n
  | cons c more ih =>
    calc n ≤ n * base := Nat.le_mul_of_pos_right n hbase
      _ ≤ n * base + digitValue c := Nat.le_add_right _ _
      _ ≤ _ := ih _

/-! ## `strtoll` -/

/-- What `strtoll` makes of the digits that it finds. -/
def Host.convert (h : Host) (negative : Bool) (base : Nat) (digits : List UInt8) : Int × Bool :=
  if digits = [] then (0, h.strtollSetsEinval)
  else
    let v := signed negative (numeral base digits)
    if 2 ^ 63 ≤ v then (2 ^ 63 - 1, true)
    else if v < -2 ^ 63 then (-2 ^ 63, true)
    else (v, false)

theorem strtoll_sign (hc : c = byte '+' ∨ c = byte '-') (base : Nat) (text : List UInt8) :
    strtoll h (c :: text) base =
      h.convert (c = byte '-') base (text.takeWhile (isDigit base)) := by
  have hsign : c = byte '-' ∨ c = byte '+' := hc.symm
  unfold strtoll
  simp only [List.head?_cons, List.tail_cons, Option.some_inj, if_pos hsign]
  by_cases hminus : c = byte '-'
  · simp only [if_pos hminus, decide_eq_true hminus]
    rfl
  · simp only [if_neg hminus, decide_eq_false hminus]
    rfl

theorem strtoll_unsigned (base : Nat)
    (htext : ∀ c, text.head? = some c → c ≠ byte '-' ∧ c ≠ byte '+') :
    strtoll h text base = h.convert false base (text.takeWhile (isDigit base)) := by
  have hminus : text.head? ≠ some (byte '-') := fun hc => (htext _ hc).1 rfl
  have hplus : text.head? ≠ some (byte '+') := fun hc => (htext _ hc).2 rfl
  unfold strtoll
  simp only [if_neg hminus, if_neg (not_or.mpr ⟨hminus, hplus⟩)]
  rfl

theorem convert_snd_iff : (h.convert negative base digits).2 = true ↔
    h.OutOfRange negative base digits := by
  rw [Host.convert, Host.OutOfRange]
  by_cases hdigits : digits = []
  · rw [if_pos hdigits, if_pos hdigits]
  · rw [if_neg hdigits, if_neg hdigits]
    generalize signed negative (numeral base digits) = v
    show (if 2 ^ 63 ≤ v then _ else if v < -2 ^ 63 then _ else _ : Int × Bool).2 = true ↔ _
    by_cases hupper : 2 ^ 63 ≤ v
    · rw [if_pos hupper]
      exact iff_of_true rfl (.inr hupper)
    · rw [if_neg hupper]
      by_cases hlower : v < -2 ^ 63
      · rw [if_pos hlower]
        exact iff_of_true rfl (.inl hlower)
      · rw [if_neg hlower]
        exact iff_of_false (by simp) (not_or.mpr ⟨hlower, hupper⟩)

theorem convert_of_range (hdigits : digits ≠ [])
    (hlower : -2 ^ 63 ≤ signed negative (numeral base digits))
    (hupper : signed negative (numeral base digits) < 2 ^ 63) :
    h.convert negative base digits = (signed negative (numeral base digits), false) := by
  rw [Host.convert, if_neg hdigits]
  show (if _ then _ else if _ then _ else _ : Int × Bool) = _
  rw [if_neg (Int.not_le.mpr hupper), if_neg (Int.not_lt.mpr hlower)]

/-- A text of digits that is not valid is not in the range. -/
theorem Literal.outOfRange_of_not_valid {l : Literal} (hvalid : ¬ l.Valid) (hdigits : l.digits ≠ [])
    (hended : l.rest.head?.any isNum = false) : h.OutOfRange l.negative l.base l.digits := by
  rw [Host.OutOfRange, if_neg hdigits]
  by_contra hin
  obtain ⟨hlower, hupper⟩ := not_or.mp hin
  exact hvalid ⟨hdigits, hended, Int.not_lt.mp hlower,
    Int.lt_trans (Int.not_le.mp hupper) (by decide)⟩

/-- More digits do not bring a number back into the range. -/
theorem Host.OutOfRange.append (hbase : 0 < base) (hdigits : digits ≠ [])
    (hout : h.OutOfRange negative base digits) (more : List UInt8) :
    h.OutOfRange negative base (digits ++ more) := by
  have hle : (numeral base digits : Int) ≤ numeral base (digits ++ more) :=
    Int.ofNat_le.mpr (numeral_le_append hbase digits more)
  rw [Host.OutOfRange, if_neg hdigits] at hout
  rw [Host.OutOfRange, if_neg (by simp [hdigits])]
  cases negative with
  | false =>
    simp only [signed] at hout ⊢
    simp at hout ⊢
    omega
  | true =>
    simp only [signed] at hout ⊢
    simp at hout ⊢
    omega

namespace Lexer

/-! ## Calls -/

variable {fuel : Nat} {last : Bool} {stream stream' : List (UInt8 × Bool)}
  {o : Outcome Lexer Event (Bool × Token)} {r : Int × Bool} {rest : List UInt8}

/-- What a call comes to with the value and `errno` of `strtoll`. -/
def Converts (r : Int × Bool) (text : List UInt8) (o : Outcome Lexer Event (Bool × Token)) : Prop :=
  if r.2 then Refuses o else Takes r.1 text o

theorem closed_converts : Closed Event.Fine (Converts r rest) := by
  intro result s l l' hl ho
  unfold Converts at ho ⊢
  split
  · next hr =>
    rw [if_pos hr] at ho
    obtain ⟨hresult, e, he, herror⟩ := ho
    exact ⟨hresult, e, List.mem_append_right _ he, herror⟩
  · next hr =>
    rw [if_neg hr] at ho
    obtain ⟨hresult, hstate, hfine⟩ := ho
    exact ⟨hresult, hstate, List.forall_mem_append.mpr ⟨hl, hfine⟩⟩

/-- `LexFromNumber` returns what `lexNumber` reads. -/
theorem lexFromNumber_converts (token : Token) {value : List UInt8}
    (hread : ReadsAhead (lexNumber h fuel c) stream (value, r.1, r.2) stream') :
    Ends Ahead (lexFromNumber h fuel token) ((c, last) :: stream)
      (Converts r (stream'.map Prod.fst)) := by
  refine getChar_ahead.ends_bind closed_converts (hread.ends_bind closed_converts ?_)
  intro s hs
  unfold Converts
  cases hr : r.2 with
  | true =>
    rw [if_pos rfl]
    exact ⟨⟨token, rfl⟩, _, List.mem_singleton.mpr rfl, fun hfine => hfine⟩
  | false =>
    rw [if_neg (by simp)]
    refine ⟨⟨_, rfl, rfl, rfl⟩, ?_, by simp [bind_apply]⟩
    show s.rest = _
    rw [← stream_map_fst, hs.stream]

theorem not_refuses_of_takes {v : Int} (ho : Takes v rest o) : ¬ Refuses o := by
  rintro ⟨⟨token, hfalse⟩, -⟩
  obtain ⟨⟨token', htrue, -⟩, -⟩ := ho
  rw [hfalse] at htrue
  cases htrue

theorem Converts.refuses_iff (ho : Converts r rest o) : Refuses o ↔ r.2 = true := by
  unfold Converts at ho
  split at ho
  · next hr => exact iff_of_true ho hr
  · next hr => exact iff_of_false (not_refuses_of_takes ho) hr

/-- What is not valid is to be refused. -/
theorem Converts.law_of_not_valid (ho : Converts r rest o)
    (hvalid : ¬ (Literal.ofText text).Valid) : NumberLaw text o ↔ r.2 = true := by
  rw [NumberLaw, if_neg hvalid]
  exact ho.refuses_iff

/-- Nothing more than the number is to be taken. -/
theorem Converts.not_law (ho : Converts r rest o) (hvalid : (Literal.ofText text).Valid)
    (hrest : rest.length < (Literal.ofText text).rest.length) : ¬ NumberLaw text o := by
  rw [NumberLaw, if_pos hvalid]
  intro htakes
  unfold Converts at ho
  split at ho
  · exact not_refuses_of_takes htakes ho
  · have heq : rest = (Literal.ofText text).rest := ho.2.1.symm.trans htakes.2.1
    rw [heq] at hrest
    exact absurd hrest (Nat.lt_irrefl _)

/-- A valid number is taken if a signed number of 64 bits can be. -/
theorem Converts.law_of_valid {l : Literal}
    (ho : Converts (h.convert l.negative l.base l.digits) l.rest o)
    (hl : Literal.ofText text = l) (hvalid : l.Valid) : NumberLaw text o ↔ l.value < 2 ^ 63 := by
  subst hl
  rw [NumberLaw, if_pos hvalid]
  by_cases hupper : (Literal.ofText text).value < 2 ^ 63
  · rw [convert_of_range hvalid.digits hvalid.lower hupper] at ho
    exact iff_of_true ho hupper
  · refine iff_of_false (fun htakes => not_refuses_of_takes htakes ?_) hupper
    rw [ho.refuses_iff, convert_snd_iff, Host.OutOfRange, if_neg hvalid.digits]
    exact .inr (Int.not_lt.mp hupper)

/-- Where the digits are taken and nothing else. -/
theorem Converts.law_iff {l : Literal}
    (ho : Converts (h.convert l.negative l.base l.digits) l.rest o)
    (hl : Literal.ofText text = l) (hblank : ¬ h.BlankBehind l) :
    NumberLaw text o ↔ h.LiteralRight l := by
  rw [Host.LiteralRight]
  split
  · next hvalid => rw [ho.law_of_valid hl hvalid, and_iff_left hblank]
  · next hvalid =>
    subst hl
    rw [ho.law_of_not_valid hvalid, convert_snd_iff]

/-- `strtoll` stops at the first decimal digit that is not one of the base. -/
theorem takeWhile_isDigit_spec (hbase : base ≤ 10) (text more : List UInt8) :
    (text.dropWhile (isDigit base)).head?.any isNum = true ∧
        (text.takeWhile isNum ++ more).takeWhile (isDigit base) = text.takeWhile (isDigit base) ∨
      (text.dropWhile (isDigit base)).head?.any isNum = false ∧
        text.dropWhile isNum = text.dropWhile (isDigit base) ∧
        (text.takeWhile isNum ++ more).takeWhile (isDigit base) =
          text.takeWhile (isDigit base) ++ more.takeWhile (isDigit base) := by
  induction text with
  | nil => exact .inr ⟨rfl, rfl, rfl⟩
  | cons c text ih =>
    by_cases hc : isDigit base c = true
    · have hnum : isNum c = true := isNum_of_isDigit hbase hc
      rw [List.takeWhile_cons_of_pos hnum, List.dropWhile_cons_of_pos hnum, List.cons_append,
        List.takeWhile_cons_of_pos hc, List.takeWhile_cons_of_pos hc,
        List.dropWhile_cons_of_pos hc, List.cons_append]
      exact ih.imp (fun hi => ⟨hi.1, congrArg (c :: ·) hi.2⟩)
        fun hi => ⟨hi.1, hi.2.1, congrArg (c :: ·) hi.2.2⟩
    · rw [List.takeWhile_cons_of_neg hc, List.dropWhile_cons_of_neg hc]
      by_cases hnum : isNum c = true
      · rw [List.takeWhile_cons_of_pos hnum, List.cons_append, List.takeWhile_cons_of_neg hc]
        exact .inl ⟨hnum, rfl⟩
      · rw [List.takeWhile_cons_of_neg hnum, List.dropWhile_cons_of_neg hnum]
        exact .inr ⟨by simpa using hnum, rfl, rfl⟩

/-- What the loop over decimal digits takes of a text: there may be `more` than the digits at its
front, if a blank that is skipped follows them. -/
structure Collects (h : Host) (base : Nat) (text more rest : List UInt8) : Prop where
  short : h.SkipsBlanks base → (text.dropWhile isNum).head?.any isBlank = true →
    rest.length < (text.dropWhile isNum).length
  clear : ¬ (h.SkipsBlanks base ∧ (text.dropWhile isNum).head?.any isBlank = true) →
    more = [] ∧ rest = text.dropWhile isNum

/-- Where the digits are taken by the loop over decimal digits. -/
theorem Collects.law_iff {source : List UInt8} (hcollects : Collects h base source more rest)
    (hl : Literal.ofText text = Literal.ofDigits negative base source)
    (hbase : base ≤ 10) (hpos : 0 < base) (hfirst : source.head?.any isNum = true)
    (ho : Converts (h.convert negative base
      ((source.takeWhile isNum ++ more).takeWhile (isDigit base))) rest o) :
    NumberLaw text o ↔ h.LiteralRight (Literal.ofDigits negative base source) := by
  obtain ⟨hshort, hclear⟩ := hcollects
  rcases takeWhile_isDigit_spec hbase source more with ⟨hgoes, htake⟩ | ⟨hends, hdrop, htake⟩
  · -- `strtoll` stops at a digit that does not belong to the number
    have hvalid : ¬ (Literal.ofDigits negative base source).Valid :=
      fun hvalid => Bool.false_ne_true (hvalid.ended.symm.trans hgoes)
    rw [htake] at ho
    rw [Host.LiteralRight, if_neg hvalid, ho.law_of_not_valid (hl ▸ hvalid), convert_snd_iff]
    rfl
  rw [htake] at ho
  rw [hdrop] at hshort hclear
  by_cases hblank : h.BlankBehind (Literal.ofDigits negative base source)
  · by_cases hvalid : (Literal.ofDigits negative base source).Valid
    · rw [Host.LiteralRight, if_pos hvalid]
      refine iff_of_false (ho.not_law (hl ▸ hvalid) ?_) fun hright => hright.2 hblank
      rw [hl]
      exact hshort hblank.1 hblank.2
    · have hne : source.takeWhile (isDigit base) ≠ [] := by
        intro hnil
        have hsource := List.takeWhile_append_dropWhile (p := isDigit base) (l := source)
        rw [hnil, List.nil_append] at hsource
        rw [hsource, hfirst] at hends
        cases hends
      have hout : h.OutOfRange negative base (source.takeWhile (isDigit base)) :=
        Literal.outOfRange_of_not_valid hvalid hne hends
      rw [Host.LiteralRight, if_neg hvalid, ho.law_of_not_valid (hl ▸ hvalid), convert_snd_iff]
      exact iff_of_true (hout.append hpos hne _) hout
  · obtain ⟨rfl, rfl⟩ := hclear hblank
    rw [List.takeWhile_nil, List.append_nil] at ho
    exact Converts.law_iff ho hl hblank

/-! ## The readers -/

/-- The loop over decimal digits. -/
theorem collect_isNum (base : Nat) {skipSpace : Bool}
    (hskip : h.SkipsBlanks base ↔ skipSpace = true) (hfuel : stream.length < fuel)
    (value : List UInt8) : ∃ more stream',
    ReadsAhead (collect h fuel skipSpace isNum value) stream
        (value ++ ((stream.map Prod.fst).takeWhile isNum ++ more)) stream' ∧
      Collects h base (stream.map Prod.fst) more (stream'.map Prod.fst) := by
  cases skipSpace with
  | false =>
    have hnot : ¬ h.SkipsBlanks base := fun hbase => Bool.false_ne_true (hskip.mp hbase)
    refine ⟨[], stream.dropWhile fun x => isNum x.1, ?_, ?_⟩
    · rw [List.append_nil]
      exact collect_ahead hfuel value
    · exact ⟨fun hbase => absurd hbase hnot, fun _ => ⟨rfl, map_fst_dropWhile isNum stream⟩⟩
  | true =>
    have hbase : h.SkipsBlanks base := hskip.mpr rfl
    obtain ⟨more, hdigits, hrest⟩ := collected_spec (fun c => not_isNum_of_isBlank) stream
    refine ⟨more, (collected isNum stream).2, ?_, ?_, ?_⟩
    · rw [← hdigits]
      exact collect_skipping_ahead hfuel value
    · intro _ hblank
      rw [if_pos hblank] at hrest
      rwa [List.length_map]
    · intro hclear
      rwa [if_neg fun hblank => hclear ⟨hbase, hblank⟩] at hrest

/-- A number without a leading zero, or a sign. -/
theorem lexNumber_reads (hc : c ≠ byte '0') {value : List UInt8}
    (hread : ReadsAhead (collect h fuel true isNum [c]) stream value stream') :
    ReadsAhead (lexNumber h fuel c) stream (value, (strtoll h value 10).1, (strtoll h value 10).2)
      stream' := by
  unfold lexNumber
  rw [if_neg hc]
  exact hread.bind (Yields.pure _ _)

/-- What follows a leading zero. -/
def lexBehindZero (h : Host) (fuel : Nat) : Option UInt8 → LexM (List UInt8 × Int × Bool)
  | none => return ([], 0, false)
  | some c => do
    if isNum c then
      let value ← collect h fuel h.peekCharSkipsSpace isNum []
      return (value, strtoll h value 8)
    else lexHexAndBinaryNum h fuel c

theorem lexNumber_zero (h : Host) (fuel : Nat) :
    lexNumber h fuel (byte '0') = peekChar true >>= lexBehindZero h fuel := by
  unfold lexNumber
  rw [if_pos rfl]
  rfl

/-- The digits of a base of its own. -/
theorem lexHexAndBinaryNum_reads (hfuel : stream.length < fuel)
    (hc : (c = byte 'x' ∨ c = byte 'X') ∧ base = 16 ∨ c = byte 'b' ∧ base = 2) :
    ReadsAhead (lexHexAndBinaryNum h fuel c) ((c, last) :: stream)
      ((stream.map Prod.fst).takeWhile (isDigit base),
        strtoll h ((stream.map Prod.fst).takeWhile (isDigit base)) base)
      (stream.dropWhile fun x => isDigit base x.1) := by
  unfold lexHexAndBinaryNum
  rcases hc with ⟨hhex, rfl⟩ | ⟨rfl, rfl⟩
  · rw [if_pos hhex]
    refine consumeChar_ahead.bind (Yields.bind ?_ (Yields.pure _ _))
    simp only [← isDigit_sixteen]
    exact collect_ahead hfuel []
  · rw [if_neg (by decide), if_pos rfl]
    refine consumeChar_ahead.bind (Yields.bind ?_ (Yields.pure _ _))
    simp only [← isDigit_two]
    exact collect_ahead hfuel []

theorem lexBehindZero_digit (hc : isNum c = true) {value : List UInt8}
    (hread : ReadsAhead (collect h fuel h.peekCharSkipsSpace isNum []) stream value stream') :
    ReadsAhead (lexBehindZero h fuel (some c)) stream (value, strtoll h value 8) stream' := by
  rw [lexBehindZero, if_pos hc]
  exact hread.bind (Yields.pure _ _)

theorem lexBehindZero_letter (hfuel : stream.length < fuel)
    (hc : (c = byte 'x' ∨ c = byte 'X') ∧ base = 16 ∨ c = byte 'b' ∧ base = 2) :
    ReadsAhead (lexBehindZero h fuel (some c)) ((c, last) :: stream)
      ((stream.map Prod.fst).takeWhile (isDigit base),
        strtoll h ((stream.map Prod.fst).takeWhile (isDigit base)) base)
      (stream.dropWhile fun x => isDigit base x.1) := by
  have hnum : isNum c = false := by
    rcases hc with ⟨rfl | rfl, -⟩ | ⟨rfl, -⟩
    · decide
    · decide
    · decide
  rw [lexBehindZero, if_neg (by simp [hnum])]
  exact lexHexAndBinaryNum_reads hfuel hc

/-- No number goes on with this character behind a leading zero. -/
structure EndsZero (c : UInt8) : Prop where
  num : isNum c = false
  small : c ≠ byte 'x'
  capital : c ≠ byte 'X'
  binary : c ≠ byte 'b'

theorem behindZero_cases (c : UInt8) :
    isNum c = true ∨
      (∃ base, (c = byte 'x' ∨ c = byte 'X') ∧ base = 16 ∨ c = byte 'b' ∧ base = 2) ∨
      EndsZero c := by
  cases hnum : isNum c with
  | true => exact .inl rfl
  | false =>
    by_cases hhex : c = byte 'x' ∨ c = byte 'X'
    · exact .inr (.inl ⟨16, .inl ⟨hhex, rfl⟩⟩)
    · by_cases hb : c = byte 'b'
      · exact .inr (.inl ⟨2, .inr ⟨hb, rfl⟩⟩)
      · obtain ⟨hx, hX⟩ := not_or.mp hhex
        exact .inr (.inr ⟨hnum, hx, hX, hb⟩)

/-- A zero that is the whole number. -/
theorem lexBehindZero_ends {found : Option UInt8} (hfound : ∀ c, found = some c → EndsZero c) :
    ReadsAhead (lexBehindZero h fuel found) stream ([], 0, false) stream := by
  cases found with
  | none => exact Yields.pure _ _
  | some c =>
    obtain ⟨hnum, hx, hX, hb⟩ := hfound c rfl
    rw [lexBehindZero, lexHexAndBinaryNum, if_neg (by simp [hnum]), if_neg (not_or.mpr ⟨hx, hX⟩),
      if_neg hb]
    exact Yields.pure _ _

theorem skipsBlanks_eight : h.SkipsBlanks 8 ↔ h.peekCharSkipsSpace = true := by
  simp [Host.SkipsBlanks]

theorem Collects.length_le (hcollects : Collects h base text more rest) :
    rest.length ≤ text.length := by
  have hle := List.length_dropWhile_le isNum text
  by_cases hblank : h.SkipsBlanks base ∧ (text.dropWhile isNum).head?.any isBlank = true
  · have hlt := hcollects.short hblank.1 hblank.2
    omega
  · rw [(hcollects.clear hblank).2]
    exact hle

theorem Collects.cons (hc : isNum c = true) (hcollects : Collects h base text more rest) :
    Collects h base (c :: text) more rest := by
  obtain ⟨hshort, hclear⟩ := hcollects
  rw [← List.dropWhile_cons_of_pos (p := isNum) hc] at hshort hclear
  exact ⟨hshort, hclear⟩

/-- There is some result, and nothing is put back. -/
theorem lexBehindZero_reads (h : Host) (hfuel : stream.length < fuel) {found : Option UInt8}
    (hfound : ∀ c, found = some c → ∃ last stream', stream = (c, last) :: stream') :
    ∃ value r stream', ReadsAhead (lexBehindZero h fuel found) stream (value, r) stream' ∧
      stream'.length ≤ stream.length := by
  cases found with
  | none => exact ⟨_, _, stream, Yields.pure _ _, Nat.le_refl _⟩
  | some c =>
    rcases behindZero_cases c with hnum | ⟨base, hletter⟩ | hends
    · obtain ⟨more, stream', hread, hcollects⟩ :=
        collect_isNum 8 (skipsBlanks_eight (h := h)) hfuel []
      have hle := hcollects.length_le
      rw [List.length_map, List.length_map] at hle
      exact ⟨_, _, stream', lexBehindZero_digit hnum hread, hle⟩
    · obtain ⟨last, stream, rfl⟩ := hfound c rfl
      refine ⟨_, _, _, lexBehindZero_letter (Nat.lt_of_succ_lt hfuel) hletter, ?_⟩
      exact Nat.le_succ_of_le (List.length_dropWhile_le _ _)
    · refine ⟨_, _, stream, lexBehindZero_ends ?_, Nat.le_refl _⟩
      rintro d hd
      obtain rfl := Option.some.inj hd
      exact hends

/-! ## The law -/

variable {token : Token}

theorem ofText_decimal (hc : isNum c = true) (hzero : c ≠ byte '0') (text : List UInt8) :
    Literal.ofText (c :: text) = Literal.ofDigits false 10 (c :: text) := by
  obtain ⟨hminus, hplus⟩ := ne_sign_of_isDigit ((isDigit_ten c).trans hc)
  unfold Literal.ofText
  exact (if_neg (not_or.mpr ⟨hplus, hminus⟩)).trans (if_pos hzero)

/-- A number without a leading zero. -/
theorem law_of_decimal (hc : isNum c = true) (hzero : c ≠ byte '0')
    (hfuel : stream.length < fuel) :
    Ends Ahead (lexFromNumber h fuel token) ((c, last) :: stream) fun o =>
      NumberLaw (c :: stream.map Prod.fst) o ↔
        h.LiteralRight (Literal.ofText (c :: stream.map Prod.fst)) := by
  obtain ⟨more, stream', hread, hcollects⟩ :=
    collect_isNum (h := h) 10 (iff_of_true (.inl rfl) rfl) hfuel [c]
  intro s hs
  have ho := lexFromNumber_converts token (lexNumber_reads hzero hread) s hs
  rw [List.singleton_append, ← List.cons_append, ← List.takeWhile_cons_of_pos (p := isNum) hc,
    strtoll_unsigned] at ho
  · rw [ofText_decimal hc hzero]
    exact (hcollects.cons hc).law_iff (ofText_decimal hc hzero _) (Nat.le_refl _) (by decide) hc ho
  · intro d hd
    rw [List.takeWhile_cons_of_pos hc] at hd
    obtain rfl := Option.some.inj hd
    exact ne_sign_of_isDigit ((isDigit_ten _).trans hc)

theorem ne_zero_of_sign (hc : c = byte '+' ∨ c = byte '-') : c ≠ byte '0' := by
  rintro rfl
  revert hc
  decide

theorem ofText_sign (hc : c = byte '+' ∨ c = byte '-') (text : List UInt8) :
    Literal.ofText (c :: text) = Literal.ofDigits (c = byte '-') 10 text := by
  unfold Literal.ofText
  exact if_pos hc

/-- A sign with digits behind it. -/
theorem law_of_sign (hc : c = byte '+' ∨ c = byte '-') (hfuel : stream.length < fuel)
    (hdigits : (stream.map Prod.fst).head?.any isNum = true) :
    Ends Ahead (lexFromNumber h fuel token) ((c, last) :: stream) fun o =>
      NumberLaw (c :: stream.map Prod.fst) o ↔
        h.LiteralRight (Literal.ofText (c :: stream.map Prod.fst)) := by
  obtain ⟨more, stream', hread, hcollects⟩ :=
    collect_isNum (h := h) 10 (iff_of_true (.inl rfl) rfl) hfuel [c]
  intro s hs
  have ho := lexFromNumber_converts token (lexNumber_reads (ne_zero_of_sign hc) hread) s hs
  rw [List.singleton_append, strtoll_sign hc] at ho
  rw [ofText_sign hc]
  exact hcollects.law_iff (ofText_sign hc _) (Nat.le_refl _) (by decide) hdigits ho

theorem ofText_zero (text : List UInt8) : Literal.ofText (byte '0' :: text) =
    match text with
    | [] => Literal.ofDigits false 10 [byte '0']
    | d :: text =>
      if d = byte 'x' ∨ d = byte 'X' then Literal.ofDigits false 16 text
      else if d = byte 'b' then Literal.ofDigits false 2 text
      else if isNum d then Literal.ofDigits false 8 (d :: text)
      else Literal.ofDigits false 10 (byte '0' :: d :: text) := rfl

theorem ofText_digit (hd : isNum d = true) (text : List UInt8) :
    Literal.ofText (byte '0' :: d :: text) = Literal.ofDigits false 8 (d :: text) := by
  have hdigit : isNum d = true := hd
  rw [isNum_iff] at hd
  have hx : ¬ (d = byte 'x' ∨ d = byte 'X') := by
    rintro (rfl | rfl)
    · simp [byte] at hd
    · simp [byte] at hd
  have hb : d ≠ byte 'b' := by
    rintro rfl
    simp [byte] at hd
  rw [ofText_zero]
  exact (if_neg hx).trans ((if_neg hb).trans (if_pos hdigit))

theorem ofText_letter
    (hd : (d = byte 'x' ∨ d = byte 'X') ∧ base = 16 ∨ d = byte 'b' ∧ base = 2)
    (text : List UInt8) :
    Literal.ofText (byte '0' :: d :: text) = Literal.ofDigits false base text := by
  rw [ofText_zero]
  rcases hd with ⟨hhex, rfl⟩ | ⟨rfl, rfl⟩
  · exact if_pos hhex
  · rfl

/-- A zero that is the whole number. -/
def loneZero (text : List UInt8) : Literal where
  negative := false
  base := 10
  digits := [byte '0']
  rest := text

theorem ofText_ends (htext : ∀ d, text.head? = some d → EndsZero d) :
    Literal.ofText (byte '0' :: text) = loneZero text := by
  cases text with
  | nil => rfl
  | cons d text =>
    obtain ⟨hnum, hx, hX, hb⟩ := htext d rfl
    have hd : ¬ isDigit 10 d = true := by simp [isDigit_ten, hnum]
    rw [ofText_zero]
    refine (if_neg (not_or.mpr ⟨hx, hX⟩)).trans
      ((if_neg hb).trans ((if_neg (by simp [hnum])).trans ?_))
    rw [Literal.ofDigits, List.takeWhile_cons_of_pos (by decide),
      List.dropWhile_cons_of_pos (by decide), List.takeWhile_cons_of_neg hd,
      List.dropWhile_cons_of_neg hd, loneZero]

theorem loneZero_valid (htext : ∀ d, text.head? = some d → EndsZero d) :
    (loneZero text).Valid where
  digits := by simp [loneZero]
  ended := by
    cases text with
    | nil => rfl
    | cons d text => exact (htext d rfl).num
  lower := by
    show (-2 ^ 63 : Int) ≤ 0
    decide
  upper := by
    show (0 : Int) < 2 ^ 64
    decide

theorem endsZero_of_isBlank (hc : isBlank c = true) : EndsZero c := by
  refine ⟨not_isNum_of_isBlank hc, ?_, ?_, ?_⟩
  · rintro rfl
    revert hc
    decide
  · rintro rfl
    revert hc
    decide
  · rintro rfl
    revert hc
    decide

/-- A zero with a blank behind it, which is skipped. -/
theorem law_of_zero_blank (hfuel : stream.length < fuel)
    (hblank : (stream.map Prod.fst).head?.any isBlank = true) :
    Ends Ahead (lexFromNumber h fuel token) ((byte '0', last) :: stream) fun o =>
      NumberLaw (byte '0' :: stream.map Prod.fst) o ↔
        h.LiteralRight (Literal.ofText (byte '0' :: stream.map Prod.fst)) := by
  have hlt := length_peeked_lt hblank
  obtain ⟨value, r, stream', hread, hle⟩ :=
    lexBehindZero_reads h (Nat.lt_trans hlt hfuel) (peeked_found stream)
  have hzero : ReadsAhead (lexNumber h fuel (byte '0')) stream (value, r) stream' := by
    rw [lexNumber_zero]
    exact (peekChar_true_ahead stream).bind hread
  have hends : ∀ d, (stream.map Prod.fst).head? = some d → EndsZero d := by
    intro d hd
    rw [hd] at hblank
    exact endsZero_of_isBlank hblank
  intro s hs
  have ho := lexFromNumber_converts token hzero s hs
  rw [ofText_ends hends]
  refine iff_of_false (ho.not_law (ofText_ends hends ▸ loneZero_valid hends) ?_) ?_
  · rw [ofText_ends hends, List.length_map]
    show stream'.length < (stream.map Prod.fst).length
    rw [List.length_map]
    exact Nat.lt_of_le_of_lt hle hlt
  · rw [Host.LiteralRight, if_pos (loneZero_valid hends)]
    exact fun hright => hright.2 ⟨.inl rfl, hblank⟩

/-- A zero with no blank behind it. -/
theorem lexFromNumber_zero_converts (token : Token) {value : List UInt8}
    (hclear : (stream.map Prod.fst).head?.any isBlank = false)
    (hread : ReadsAhead (lexBehindZero h fuel (stream.map Prod.fst).head?) stream (value, r)
      stream') :
    Ends Ahead (lexFromNumber h fuel token) ((byte '0', last) :: stream)
      (Converts r (stream'.map Prod.fst)) := by
  have hpeek := peekChar_true_ahead stream
  rw [peeked_of_clear hclear] at hpeek
  have hzero : ReadsAhead (lexNumber h fuel (byte '0')) stream (value, r) stream' := by
    rw [lexNumber_zero]
    exact hpeek.bind hread
  exact lexFromNumber_converts token hzero

variable {dlast : Bool}

/-- A digit is behind the leading zero. -/
theorem law_of_octal (hfuel : ((d, dlast) :: stream).length < fuel) (hd : isNum d = true) :
    Ends Ahead (lexFromNumber h fuel token) ((byte '0', last) :: (d, dlast) :: stream) fun o =>
      NumberLaw (byte '0' :: d :: stream.map Prod.fst) o ↔
        h.LiteralRight (Literal.ofText (byte '0' :: d :: stream.map Prod.fst)) := by
  have hclear : (((d, dlast) :: stream).map Prod.fst).head?.any isBlank = false := by
    show isBlank d = false
    by_contra hblank
    rw [not_isNum_of_isBlank (by simpa using hblank)] at hd
    cases hd
  obtain ⟨more, stream', hread, hcollects⟩ :=
    collect_isNum 8 (skipsBlanks_eight (h := h)) hfuel []
  intro s hs
  have ho := lexFromNumber_zero_converts token hclear (lexBehindZero_digit hd hread) s hs
  rw [List.nil_append, strtoll_unsigned] at ho
  · rw [ofText_digit hd]
    exact hcollects.law_iff (ofText_digit hd _) (by decide) (by decide) hd ho
  · intro c hc
    rw [List.map_cons, List.takeWhile_cons_of_pos hd] at hc
    obtain rfl := Option.some.inj hc
    exact ne_sign_of_isDigit ((isDigit_ten _).trans hd)

/-- A letter for the base is behind the leading zero. -/
theorem law_of_letter (hfuel : stream.length < fuel)
    (hd : (d = byte 'x' ∨ d = byte 'X') ∧ base = 16 ∨ d = byte 'b' ∧ base = 2) :
    Ends Ahead (lexFromNumber h fuel token) ((byte '0', last) :: (d, dlast) :: stream) fun o =>
      NumberLaw (byte '0' :: d :: stream.map Prod.fst) o ↔
        h.LiteralRight (Literal.ofText (byte '0' :: d :: stream.map Prod.fst)) := by
  have hclear : (((d, dlast) :: stream).map Prod.fst).head?.any isBlank = false := by
    show isBlank d = false
    rcases hd with ⟨rfl | rfl, -⟩ | ⟨rfl, -⟩
    · decide
    · decide
    · decide
  have hbase : ¬ h.SkipsBlanks base := by
    rcases hd with ⟨-, rfl⟩ | ⟨-, rfl⟩
    · simp [Host.SkipsBlanks]
    · simp [Host.SkipsBlanks]
  intro s hs
  have ho := lexFromNumber_zero_converts token hclear (lexBehindZero_letter (h := h) hfuel hd) s hs
  rw [strtoll_unsigned, List.takeWhile_idem, map_fst_dropWhile] at ho
  · rw [ofText_letter hd]
    exact Converts.law_iff ho (ofText_letter hd _) fun hblank => hbase hblank.1
  · intro c hc
    exact ne_sign_of_isDigit (List.mem_takeWhile_imp (List.mem_of_mem_head? hc))

/-- Nothing that belongs to a number is behind the zero, nor is a blank. -/
theorem law_of_lone_zero (hclear : (stream.map Prod.fst).head?.any isBlank = false)
    (hends : ∀ d, (stream.map Prod.fst).head? = some d → EndsZero d) :
    Ends Ahead (lexFromNumber h fuel token) ((byte '0', last) :: stream) fun o =>
      NumberLaw (byte '0' :: stream.map Prod.fst) o ↔
        h.LiteralRight (Literal.ofText (byte '0' :: stream.map Prod.fst)) := by
  have hread : ReadsAhead (lexBehindZero h fuel (stream.map Prod.fst).head?) stream
      ([], 0, false) stream := lexBehindZero_ends hends
  intro s hs
  have ho := lexFromNumber_zero_converts token hclear hread s hs
  rw [ofText_ends hends]
  refine Converts.law_iff (l := loneZero (stream.map Prod.fst)) ho (ofText_ends hends) ?_
  rintro ⟨-, hblank⟩
  exact Bool.false_ne_true (hclear.symm.trans hblank)

/-- A zero, and what follows it. -/
theorem law_of_zero (hfuel : stream.length < fuel) :
    Ends Ahead (lexFromNumber h fuel token) ((byte '0', last) :: stream) fun o =>
      NumberLaw (byte '0' :: stream.map Prod.fst) o ↔
        h.LiteralRight (Literal.ofText (byte '0' :: stream.map Prod.fst)) := by
  cases hblank : (stream.map Prod.fst).head?.any isBlank with
  | true => exact law_of_zero_blank hfuel hblank
  | false =>
    cases stream with
    | nil => exact law_of_lone_zero hblank (by simp)
    | cons x stream =>
      obtain ⟨d, dlast⟩ := x
      rcases behindZero_cases d with hnum | ⟨base, hletter⟩ | hends
      · exact law_of_octal hfuel hnum
      · exact law_of_letter (Nat.lt_of_succ_lt hfuel) hletter
      · refine law_of_lone_zero hblank ?_
        rintro e he
        obtain rfl := Option.some.inj he
        exact hends

/-- A sign with no digits behind it. -/
theorem law_of_bare_sign (hc : c = byte '+' ∨ c = byte '-') (hfuel : stream.length < fuel)
    (hdigits : (Literal.ofText (c :: stream.map Prod.fst)).digits = []) :
    Ends Ahead (lexFromNumber h fuel token) ((c, last) :: stream) fun o =>
      NumberLaw (c :: stream.map Prod.fst) o ↔
        h.OutOfRange (Literal.ofText (c :: stream.map Prod.fst)).negative 10
          (collected isNum stream).1 := by
  have hread := lexNumber_reads (h := h) (ne_zero_of_sign hc) (collect_skipping_ahead hfuel [c])
  have hall : (collected isNum stream).1.takeWhile (isDigit 10) = (collected isNum stream).1 := by
    refine List.takeWhile_eq_self_iff.mpr fun d hd => ?_
    rw [isDigit_ten, accept_of_mem_collected hd]
  intro s hs
  have ho := lexFromNumber_converts token hread s hs
  rw [List.singleton_append, strtoll_sign hc, hall] at ho
  have hvalid : ¬ (Literal.ofText (c :: stream.map Prod.fst)).Valid := fun hv => hv.digits hdigits
  rw [ho.law_of_not_valid hvalid, convert_snd_iff, ofText_sign hc]
  rfl

/-- Only a sign can have no digits behind it. -/
theorem ofText_digits_ne (hc : isNum c = true) (text : List UInt8) :
    ¬ ((Literal.ofText (c :: text)).base = 10 ∧ (Literal.ofText (c :: text)).digits = []) := by
  by_cases hzero : c = byte '0'
  · subst hzero
    cases text with
    | nil => exact fun hbare => absurd hbare.2 (by decide)
    | cons d text =>
      rcases behindZero_cases d with hnum | ⟨base, hletter⟩ | hends
      · rw [ofText_digit hnum]
        exact fun hbare => absurd hbare.1 (show ¬ 8 = 10 by decide)
      · rw [ofText_letter hletter]
        rintro ⟨hbase, -⟩
        obtain rfl : base = 10 := hbase
        simp at hletter
      · rw [ofText_ends (by simpa using hends)]
        exact fun hbare => List.cons_ne_nil _ _ hbare.2
  · rw [ofText_decimal hc hzero]
    intro hbare
    have hdigits : (c :: text).takeWhile (isDigit 10) = [] := hbare.2
    rw [List.takeWhile_cons_of_pos ((isDigit_ten c).trans hc)] at hdigits
    exact List.cons_ne_nil _ _ hdigits

/-- A call at a digit or a sign does what it is to do just in case it is right about what is
there. -/
theorem lexFromNumber_law (hc : isNum c = true ∨ c = byte '+' ∨ c = byte '-') {s : Lexer}
    (hs : s.Ahead ((c, last) :: stream)) (hfuel : stream.length < fuel) :
    NumberLaw s.rest (lexFromNumber h fuel token s) ↔ h.NumberRight s := by
  have hrest : s.rest = c :: stream.map Prod.fst := by
    rw [← stream_map_fst, hs.stream, List.map_cons]
  rw [Host.NumberRight, hs.stream, List.tail_cons, hrest]
  rcases hc with hnum | hsign
  · rw [if_neg (ofText_digits_ne hnum _)]
    by_cases hzero : c = byte '0'
    · subst hzero
      exact law_of_zero hfuel s hs
    · exact law_of_decimal hnum hzero hfuel s hs
  · by_cases hdigits : (Literal.ofText (c :: stream.map Prod.fst)).digits = []
    · rw [if_pos ⟨by rw [ofText_sign hsign]; rfl, hdigits⟩]
      exact law_of_bare_sign hsign hfuel hdigits s hs
    · rw [if_neg fun hbare => hdigits hbare.2]
      refine law_of_sign hsign hfuel ?_ s hs
      rw [ofText_sign hsign] at hdigits
      cases htext : stream.map Prod.fst with
      | nil =>
        rw [htext] at hdigits
        exact absurd rfl hdigits
      | cons d text =>
        rw [htext] at hdigits
        by_contra hnum
        refine hdigits (List.takeWhile_cons_of_neg ?_)
        rw [isDigit_ten]
        exact hnum

end Lexer

/-- **When `LexFromNumber` takes the number that is there.** It is right about a number just in case
it is below 2^63 and has no blank behind it that `PeekChar` skips, and about anything else just in
case `strtoll` sets `errno` for the digits that are collected. -/
theorem lexesNumber_iff (h : Host) {s : Lexer} {c : UInt8} (hsrc : ∀ chunk ∈ s.src, chunk ≠ [])
    (hhead : s.rest.head? = some c) (hfirst : isNum c = true ∨ c = byte '+' ∨ c = byte '-') :
    LexesNumber h s ↔ h.NumberRight s := by
  obtain ⟨text, hrest⟩ := List.head?_eq_some_iff.mp hhead
  obtain ⟨⟨c, last⟩, stream, hstream, rfl, htext⟩ :=
    List.map_eq_cons_iff.mp ((Lexer.stream_map_fst s).trans hrest)
  have hlen : s.rest.length = stream.length + 1 := by
    rw [hrest, ← htext, List.length_cons, List.length_map]
  have hlaw : ∀ fuel token, s.rest.length < fuel →
      (NumberLaw s.rest (Lexer.lexFromNumber h fuel token s) ↔ h.NumberRight s) := by
    intro fuel token hfuel
    exact Lexer.lexFromNumber_law hfirst ⟨hstream, hsrc⟩ (by omega)
  constructor
  · intro hall
    have hfuel : s.rest.length < s.rest.length + 1 := Nat.lt_succ_self _
    exact (hlaw _ ⟨.none, 0, [], 0⟩ hfuel).mp (hall _ _ hfuel)
  · exact fun hright fuel token hfuel => (hlaw fuel token hfuel).mpr hright

/-- A number in two reads of the file. -/
theorem lexesNumber_iff_decimal : LexesNumber {} { src := [bytes "1", bytes "2;"] } := by
  have hvalid : (Literal.ofText (bytes "12;")).Valid := ⟨by decide, by decide, by decide, by decide⟩
  refine (lexesNumber_iff {} (by decide) rfl (by decide)).mpr ?_
  show Host.LiteralRight {} (Literal.ofText (bytes "12;"))
  rw [Host.LiteralRight, if_pos hvalid]
  exact ⟨by decide, fun hblank => absurd hblank.2 (by decide)⟩

/-- Two numbers with a blank between them become one. -/
theorem numbers_merged : ¬ LexesNumber {} { src := [bytes "1 2"] } := by
  intro hall
  have hvalid : (Literal.ofText (bytes "1 2")).Valid := ⟨by decide, by decide, by decide, by decide⟩
  have hlaw : NumberLaw (bytes "1 2")
      (Lexer.lexFromNumber {} 4 ⟨.none, 0, [], 0⟩ { src := [bytes "1 2"] }) :=
    hall 4 _ (by decide)
  rw [NumberLaw, if_pos hvalid] at hlaw
  exact absurd hlaw.2.1 (by decide)

end HcGen
