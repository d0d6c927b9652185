import Mathlib.Tactic.Ring
import OpenHarmonyMac.Infra.Program

/-!
# The lexer of hc-gen

`Lexer` reads a file through a buffer, which `FillBuffer` fills when it is used up. The functions
follow `lexer.cpp` one by one. A `while` loop is `Program.loop`.

* `Lexer` — the lexer, with the reads of the file that are still to come
* `Lexer.lex` — the next token
* `lexAll` — the tokens of a file up to its end or to an error
-/

namespace HcGen

open Infra Infra.Program

/-- What is not in `lexer.cpp`: whether plain `char` is signed, the default arguments of `GetChar`
and `PeekChar`, and whether `strtoll` sets `errno` for a text without digits. -/
structure Host where
  charSigned : Bool := true
  getCharSkipsSpace : Bool := true
  peekCharSkipsSpace : Bool := true
  strtollSetsEinval : Bool := false
  deriving DecidableEq, Repr

/-- The types of tokens. `char` is a punctuation character, which is its own type. -/
inductive TokenType
  | none
  | char (c : UInt8)
  | eof
  | include
  | root
  | delete
  | template
  | number
  | string
  | literal
  | refPath
  deriving DecidableEq, Repr

structure Token where
  type : TokenType
  numval : UInt64
  strval : List UInt8
  lineNo : Nat
  deriving DecidableEq, Repr

/-- What a run of the lexer reports: that `Lex` is called, that a byte is taken, that white space is
skipped from one place in the file to another, and the errors, with the place that is printed. -/
inductive Event
  | lex
  | read
  | skip (start stop : Nat)
  | error (lineno lineLoc : Nat) (text : String)
  deriving DecidableEq, Repr

/-- The lexer. `buffer` has the bytes from `bufferStart_` to `bufferEnd_`, and `src` those that each
further `read` gives. `pos` observes how many bytes have been taken. -/
structure Lexer where
  buffer : List UInt8 := []
  src : List (List UInt8)
  lineno : Nat := 1
  lineLoc : Nat := 1
  pos : Nat := 0
  deriving DecidableEq, Repr

abbrev LexM := Program Lexer Event

/-- The byte of an ASCII character. -/
def byte (c : Char) : UInt8 := UInt8.ofNat c.toNat

/-- `EOF` as a `char`. -/
def eof : UInt8 := 0xFF

/-- The comparison of a `char` with `EOF`, which is the `int` -1. -/
def Host.isEof (h : Host) (c : UInt8) : Bool := h.charSigned && c == eof

def isSpace (c : UInt8) : Bool := c == byte ' ' || c == byte '\t' || c == byte '\r'

def isNum (c : UInt8) : Bool := byte '0' ≤ c && c ≤ byte '9'

/-- `isalpha` in the C locale. -/
def isalpha (c : UInt8) : Bool :=
  (byte 'a' ≤ c && c ≤ byte 'z') || (byte 'A' ≤ c && c ≤ byte 'Z')

/-- `isalnum` in the C locale. -/
def isalnum (c : UInt8) : Bool := isalpha c || isNum c

/-- The bytes of a string literal. -/
def bytes (s : String) : List UInt8 := s.toList.map byte

/-- A text as it is printed. -/
def text (value : List UInt8) : String := String.ofList (value.map fun c => Char.ofNat c.toNat)

/-- `Lexer::keyWords_`. -/
def keyWords : List (List UInt8 × TokenType) :=
  [(bytes "#include", .include), (bytes "root", .root), (bytes "delete", .delete),
    (bytes "template", .template)]

/-- The value of a digit or a letter. -/
def digitValue (c : UInt8) : Nat :=
  if isNum c then (c - byte '0').toNat
  else if byte 'a' ≤ c && c ≤ byte 'z' then (c - byte 'a').toNat + 10
  else (c - byte 'A').toNat + 10

/-- `strtoll` for texts without white space and without the prefix of a base: the value, and whether
`errno` is set. What follows the digits of the base is left over. -/
def strtoll (h : Host) (value : List UInt8) (base : Nat) : Int × Bool :=
  let negative := value.head? = some (byte '-')
  let unsigned :=
    if value.head? = some (byte '-') ∨ value.head? = some (byte '+') then value.tail else value
  let digits := unsigned.takeWhile fun c => isalnum c && digitValue c < base
  if digits = [] then (0, h.strtollSetsEinval)
  else
    let n := digits.foldl (fun n c => n * base + digitValue c) 0
    let v : Int := if negative then -n else n
    if 2 ^ 63 ≤ v then (2 ^ 63 - 1, true)
    else if v < -2 ^ 63 then (-2 ^ 63, true)
    else (v, false)

namespace Lexer

variable (h : Host) (fuel : Nat)

/-- `Logger().Error() << *this << …` -/
def error (text : String) : LexM Unit := do
  let s ← state
  emit (.error s.lineno s.lineLoc text)

def fillBuffer : LexM Bool := do
  let s ← state
  if s.buffer ≠ [] then return true
  else
    match s.src with
    | [] => return false
    | chunk :: src =>
      update fun s => { s with buffer := chunk, src := src }
      return chunk ≠ []

def getRawChar : LexM UInt8 := do
  if ← fillBuffer then
    let s ← state
    match s.buffer with
    | [] => return eof
    | c :: buffer =>
      update fun s => { s with buffer := buffer, lineLoc := s.lineLoc + 1, pos := s.pos + 1 }
      emit .read
      return c
  else return eof

/-- `while (IsSpace(chr)) { chr = GetRawChar(); }`. -/
def skipSpaces (chr : UInt8) : LexM UInt8 :=
  loop (fun chr => if isSpace chr then .inl <$> getRawChar else pure (.inr chr)) fuel chr

def getChar (skipSpace : Bool) : LexM (UInt8 × Bool) := do
  let chr ← getRawChar
  let chr ← (if skipSpace then skipSpaces fuel chr else pure chr : LexM UInt8)
  update fun s => if chr = byte '\n' then { s with lineno := s.lineno + 1, lineLoc := 0 } else s
  return (chr, !h.isEof chr)

/-- The loop of `PeekChar`: it ends at the end of the buffer. -/
def skipBlanks (s : Lexer) : List UInt8 → Lexer
  | [] => { s with buffer := [] }
  | c :: buffer =>
    if isSpace c || c == byte '\n' then
      skipBlanks
        { s with
          lineLoc := if c = byte '\n' then 0 else s.lineLoc + 1
          lineno := if c = byte '\n' then s.lineno + 1 else s.lineno
          pos := s.pos + 1 } buffer
    else { s with buffer := c :: buffer }

def skip : LexM Unit := do
  let s ← state
  update fun s => s.skipBlanks s.buffer
  emit (.skip s.pos (s.skipBlanks s.buffer).pos)

def peekChar (skipSpace : Bool) : LexM (Option UInt8) := do
  if ← fillBuffer then
    let _ ← (if skipSpace then skip else pure () : LexM Unit)
    let s ← state
    return s.buffer.head?
  else return none

def consumeChar : LexM Unit := do
  let _ ← getChar h fuel false

def processComment : LexM Bool := do
  consumeChar h fuel
  let (c, found) ← getChar h fuel h.getCharSkipsSpace
  if !found then
    error "unterminated comment"
    return false
  else if c = byte '/' then
    let c ← loop (fun c => do
      if c = byte '\n' then return .inr c
      else
        let (c, found) ← getChar h fuel h.getCharSkipsSpace
        return if found then .inl c else .inr c) fuel c
    if c ≠ byte '\n' ∧ ¬ h.isEof c then
      error "unterminated signal line comment"
      return false
    else return true
  else if c = byte '*' then
    -- `inr none` is the `return true` in the loop
    let last ← loop (fun _ => do
      let (c, found) ← getChar h fuel h.getCharSkipsSpace
      if !found then return .inr (some c)
      else if c = byte '*' then
        let (c, found) ← getChar h fuel h.getCharSkipsSpace
        return if found && c == byte '/' then .inr none else .inl ()
      else return .inl ()) fuel ()
    match last with
    | none => return true
    | some c =>
      if c ≠ byte '/' then
        error "unterminated multi-line comment"
        return false
      else return true
  else
    error "invalid character"
    return false

/-- `InitToken`, with the line as it is when `Lex` is called. -/
def initToken : LexM Token := do
  let s ← state
  return { type := .none, numval := 0, strval := [], lineNo := s.lineno }

def lexFromString (token : Token) : LexM (Bool × Token) := do
  let _ ← getChar h fuel false
  -- `inr none` is the `return false` in the loop
  let last ← loop (fun value => do
    let (c, found) ← getChar h fuel false
    if found && c != byte '"' then
      if c = byte '\\' then
        let (c, _) ← getChar h fuel false
        if c ≠ byte '"' then
          error "Invalid escape character."
          return .inr none
        else return .inl (value ++ [c])
      else return .inl (value ++ [c])
    else return .inr (some (value, c))) fuel []
  match last with
  | none => return (false, token)
  | some (value, c) =>
    if c ≠ byte '"' then
      error "unterminated string"
      return (false, token)
    else
      let s ← state
      return (true, { token with type := .string, strval := value, lineNo := s.lineno })

/-- `while (PeekChar(c, skipSpace) && accept(c)) { value.push_back(c); ConsumeChar(); }`, once. -/
def collectStep (skipSpace : Bool) (accept : UInt8 → Bool) (value : List UInt8) :
    LexM (List UInt8 ⊕ List UInt8) := do
  match ← peekChar skipSpace with
  | none => return .inr value
  | some c =>
    if accept c then
      consumeChar h fuel
      return .inl (value ++ [c])
    else return .inr value

/-- The whole loop. -/
def collect (skipSpace : Bool) (accept : UInt8 → Bool) (value : List UInt8) : LexM (List UInt8) :=
  loop (collectStep h fuel skipSpace accept) fuel value

/-- The text of the number, its value, and whether `errno` is set. -/
def lexHexAndBinaryNum (c : UInt8) : LexM (List UInt8 × Int × Bool) := do
  if c = byte 'x' ∨ c = byte 'X' then
    consumeChar h fuel
    let value ← collect h fuel false
      (fun c => isNum c || (byte 'a' ≤ c && c ≤ byte 'f') || (byte 'A' ≤ c && c ≤ byte 'F')) []
    return (value, strtoll h value 16)
  else if c = byte 'b' then
    consumeChar h fuel
    let value ← collect h fuel false (fun c => c == byte '0' || c == byte '1') []
    return (value, strtoll h value 2)
  else return ([], 0, false)

/-- The number that starts with `c`: its text, its value, and whether `errno` is set. -/
def lexNumber (c : UInt8) : LexM (List UInt8 × Int × Bool) := do
  if c = byte '0' then
    match ← peekChar true with
    | none => return ([], 0, false)
    | some c =>
      if isNum c then
        let value ← collect h fuel h.peekCharSkipsSpace isNum []
        return (value, strtoll h value 8)
      else lexHexAndBinaryNum h fuel c
  else
    let value ← collect h fuel true isNum [c]
    return (value, strtoll h value 10)

def lexFromNumber (token : Token) : LexM (Bool × Token) := do
  let (c, _) ← getChar h fuel false
  let (value, v, errno) ← lexNumber h fuel c
  if errno then
    error ("illegal number: " ++ text value)
    return (false, token)
  else
    let s ← state
    return (true, { token with type := .number, numval := UInt64.ofInt v, lineNo := s.lineno })

/-- The type and the value of a token for the text of a literal. -/
def literalType (value : List UInt8) (token : Token) : Token :=
  if value = bytes "true" then { token with type := .number, numval := 1 }
  else if value = bytes "false" then { token with type := .number, numval := 0 }
  else
    match keyWords.lookup value with
    | some keyword => { token with type := keyword }
    | none => { token with type := if byte '.' ∈ value then .refPath else .literal }

def lexFromLiteral (token : Token) : LexM Token := do
  let value ← collect h fuel false
    (fun c => !isSpace c && (isalnum c || c == byte '_' || c == byte '.' || c == byte '\\')) []
  let s ← state
  return { literalType value token with strval := value, lineNo := s.lineno }

def lexInclude (token : Token) : LexM (Bool × Token) := do
  consumeChar h fuel
  let token ← lexFromLiteral h fuel token
  if token.strval ≠ bytes "include" then return (false, token)
  else return (true, { token with type := .include })

def setTokenCharacter (c : UInt8) (token : Token) : LexM (Bool × Token) := do
  if c ∈ bytes ";,[]{}=&:" then
    consumeChar h fuel
    let s ← state
    return (true, { token with type := .char c, lineNo := s.lineno })
  else if c = byte '"' then lexFromString h fuel token
  else if c = byte '+' ∨ c = byte '-' then lexFromNumber h fuel token
  else if h.isEof c then return (true, { token with type := .eof })
  else
    error ("can not recognized character '" ++ text [c] ++ "'")
    return (false, token)

/-- What `Lex` does with the character it finds: a comment goes on, a token ends the loop. -/
def lexChar (token : Token) (c : UInt8) : LexM (Unit ⊕ (Bool × Token)) := do
  if c = byte '#' then .inr <$> lexInclude h fuel token
  else if isalpha c then
    let token ← lexFromLiteral h fuel token
    return .inr (true, token)
  else if isNum c then .inr <$> lexFromNumber h fuel token
  else if c = byte '/' then
    if ← processComment h fuel then return .inl ()
    else return .inr (false, token)
  else .inr <$> setTokenCharacter h fuel c token

def lex : LexM (Bool × Token) := do
  emit .lex
  let token ← initToken
  loop (fun _ => do
    match ← peekChar true with
    | none => return .inr (true, { token with type := .eof })
    | some c => lexChar h fuel token c) fuel ()

end Lexer

/-- How the tokens of a file end. -/
inductive Ending
  | eof
  | error
  | outOfFuel
  deriving DecidableEq, Repr

/-- The calls of `Lex` until the end of the file or an error: the tokens, how they end, and what the
lexer has reported. -/
def lexAll (h : Host) (fuel : Nat) : Nat → Lexer → List Token × Ending × List Event
  | 0, _ => ([], .outOfFuel, [])
  | n + 1, s =>
    match Lexer.lex h fuel s with
    | ⟨none, _, trace⟩ => ([], .outOfFuel, trace)
    | ⟨some (false, _), _, trace⟩ => ([], .error, trace)
    | ⟨some (true, token), t, trace⟩ =>
      if token.type = .eof then ([], .eof, trace)
      else
        let (tokens, ending, trace') := lexAll h fuel n t
        (token :: tokens, ending, trace ++ trace')

end HcGen
