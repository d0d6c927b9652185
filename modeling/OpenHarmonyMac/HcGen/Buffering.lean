import Mathlib.Data.List.Chain
import Mathlib.Data.List.TakeWhile
import OpenHarmonyMac.HcGen.Lexer

/-!
# The lexer and its buffer

`PeekChar` stops at the end of the buffer when it skips white space, so that a token after it may be
taken for the end of the file. Wherever that does not happen, the buffer makes no difference.

* `tokenStream_eq_oneBuffer` — the tokens are those of the file in one buffer
* `token_lost_behind_space` — a file that ends early
-/

namespace HcGen

open Infra Infra.Program

/-- What is to be compared of a token: the type, the string and the number. -/
def Token.view (token : Token) : TokenType × List UInt8 × UInt64 :=
  (token.type, token.strval, token.numval)

/-- The tokens of a file that is read in the given chunks, and how they end. -/
def tokenStream (h : Host) (fuel n : Nat) (src : List (List UInt8)) :
    List (TokenType × List UInt8 × UInt64) × Ending :=
  ((lexAll h fuel n { src := src }).1.map Token.view, (lexAll h fuel n { src := src }).2.1)

/-- The reads of a file that fits into the buffer. -/
def oneBuffer (file : List UInt8) : List (List UInt8) := if file = [] then [] else [file]

/-- Where the chunks end, the first of which starts at `pos`. -/
def chunkEnds : Nat → List (List UInt8) → List Nat
  | _, [] => []
  | pos, chunk :: src => (pos + chunk.length) :: chunkEnds (pos + chunk.length) src

/-- The chunks that end in a stretch of the file or right behind it. -/
def cuts (ends : List Nat) (start stop : Nat) : List Nat :=
  ends.filter fun e => start < e ∧ e ≤ stop

/-- White space that `PeekChar` skips has no chunk end in it, or lies at the end of the file, or
belongs to no token: `Lex` is called next. Then it has one chunk end at most. -/
def Undivided (ends : List Nat) (size : Nat) : Event → Event → Prop
  | .skip start stop, next =>
    stop = size ∨ cuts ends start stop = [] ∨
      next = .lex ∧ (cuts ends start stop).length ≤ 1
  | _, _ => True

instance (ends : List Nat) (size : Nat) (e next : Event) : Decidable (Undivided ends size e next) := by
  unfold Undivided
  split <;> infer_instance

/-- All white space that a run skips is undivided. -/
def AllUndivided (ends : List Nat) (size : Nat) (trace : List Event) : Prop :=
  trace.IsChain (Undivided ends size)

/-- What `PeekChar` skips. -/
def isBlank (c : UInt8) : Bool := isSpace c || c == byte '\n'

instance (ends : List Nat) (size : Nat) (trace : List Event) :
    Decidable (AllUndivided ends size trace) :=
  inferInstanceAs (Decidable (trace.IsChain _))

variable {h : Host} {fuel : Nat} {ends : List Nat} {size : Nat} {l : List Event} {s t : Lexer}
  {blanks : List UInt8}

namespace Lexer

/-- What has not been taken of the file. -/
def rest (s : Lexer) : List UInt8 := s.buffer ++ s.src.flatten

/-- The file is read into one buffer. -/
def Whole (t : Lexer) : Prop := t.src = [] ∨ t.buffer = [] ∧ ∃ file, file ≠ [] ∧ t.src = [file]

/-- The lexer `s` reads in chunks, `t` has the file in one buffer, and `s` has `blanks` before it
that `t` has behind it. -/
structure Behind (ends : List Nat) (size : Nat) (blanks : List UInt8) (s t : Lexer) : Prop where
  rest : s.rest = blanks ++ t.rest
  blank : ∀ c ∈ blanks, isBlank c = true
  whole : t.Whole
  nonempty : ∀ chunk ∈ s.src, chunk ≠ []
  le : blanks.length ≤ t.pos
  ends : ∀ e ∈ chunkEnds (t.pos - blanks.length) (s.buffer :: s.src),
    t.pos - blanks.length < e → e ∈ ends
  size : t.pos + t.rest.length = size

/-- The blanks before `s` are all in its next buffer, or nothing comes behind them. -/
structure Near (ends : List Nat) (size : Nat) (blanks : List UInt8) (s t : Lexer) : Prop
    extends Behind ends size blanks s t where
  clear : ∀ e ∈ chunkEnds (t.pos - blanks.length) (s.buffer :: s.src),
    t.pos - blanks.length < e → t.pos < e ∨ t.rest = []

/-- Both lexers are at the same place. -/
def Aligned (ends : List Nat) (size : Nat) (_ : List Event) (s t : Lexer) : Prop :=
  Behind ends size [] s t

/-- `PeekChar` has skipped white space and `s` has come to the end of its buffer before the end of
it. -/
def Stopped (ends : List Nat) (size : Nat) (l : List Event) (s t : Lexer) : Prop :=
  ∃ blanks, Behind ends size blanks s t ∧
    (t.rest = [] ∨ ∃ start, l.getLast? = some (.skip start t.pos) ∧
      start < t.pos - blanks.length ∧ t.pos - blanks.length ∈ ends)

/-- The lexers between two tokens. -/
def Settled (ends : List Nat) (size : Nat) (l : List Event) (s t : Lexer) : Prop :=
  Aligned ends size l s t ∨ Stopped ends size l s t

/-! ## The buffer -/

theorem chunkEnds_append (pos : Nat) (taken buffer : List UInt8) (src : List (List UInt8)) :
    chunkEnds pos ((taken ++ buffer) :: src) = chunkEnds (pos + taken.length) (buffer :: src) := by
  rw [chunkEnds, chunkEnds, List.length_append, Nat.add_assoc]

/-- The lexer after `FillBuffer`. -/
def filled (s : Lexer) : Lexer :=
  match s.buffer, s.src with
  | [], chunk :: src => { s with buffer := chunk, src := src }
  | _, _ => s

theorem fillBuffer_apply (s : Lexer) :
    fillBuffer s = ⟨some (decide (s.filled.buffer ≠ [])), s.filled, []⟩ := by
  unfold fillBuffer filled
  cases hbuffer : s.buffer with
  | nil => cases hsrc : s.src <;> simp [bind_apply, hbuffer, hsrc]
  | cons c buffer => cases hsrc : s.src <;> simp [bind_apply, hbuffer]

theorem filled_of_head? {c : UInt8} (hc : s.buffer.head? = some c) : s.filled = s := by
  unfold filled
  split
  · next hbuffer _ =>
    rw [hbuffer] at hc
    cases hc
  · rfl

theorem filled_rest (s : Lexer) : s.filled.rest = s.rest := by
  unfold filled
  split
  · next hbuffer hsrc => simp [rest, hbuffer, hsrc]
  · rfl

theorem filled_pos (s : Lexer) : s.filled.pos = s.pos := by
  unfold filled
  split <;> rfl

theorem filled_src (s : Lexer) : ∀ chunk ∈ s.filled.src, chunk ∈ s.src := by
  unfold filled
  split
  · next hsrc =>
    rw [hsrc]
    exact fun chunk h => List.mem_cons_of_mem _ h
  · exact fun _ h => h

theorem chunkEnds_filled (pos : Nat) (s : Lexer) :
    ∀ e ∈ chunkEnds pos (s.filled.buffer :: s.filled.src), e ∈ chunkEnds pos (s.buffer :: s.src) := by
  unfold filled
  split
  · next hbuffer hsrc =>
    rw [hbuffer, hsrc]
    exact fun e he => List.mem_cons_of_mem _ he
  · exact fun _ h => h

/-- The buffer is only empty at the end of the file. -/
theorem filled_buffer_eq_nil (hne : ∀ chunk ∈ s.src, chunk ≠ []) :
    s.filled.buffer = [] ↔ s.rest = [] := by
  unfold filled
  split
  · next hbuffer hsrc =>
    have hchunk := hne _ (by rw [hsrc]; exact List.mem_cons_self)
    simp [rest, hbuffer, hsrc, hchunk]
  · next hother =>
    cases hbuffer : s.buffer with
    | nil =>
      cases hsrc : s.src with
      | nil => simp [rest, hbuffer, hsrc]
      | cons chunk src => exact (hother _ _ hbuffer hsrc).elim
    | cons c buffer => simp [rest, hbuffer]

theorem Whole.nonempty (ht : t.Whole) : ∀ chunk ∈ t.src, chunk ≠ [] := by
  rcases ht with hsrc | ⟨-, file, hfile, hsrc⟩
  · simp [hsrc]
  · simpa [hsrc] using hfile

theorem Whole.filled (ht : t.Whole) : t.filled.src = [] := by
  unfold Lexer.filled
  split
  · next hsrc =>
    rcases ht with hnil | ⟨-, file, -, hfile⟩
    · rw [hnil] at hsrc
      cases hsrc
    · rw [hfile] at hsrc
      cases hsrc
      rfl
  · next hother =>
    rcases ht with hnil | ⟨hbuffer, file, -, hfile⟩
    · exact hnil
    · exact (hother _ _ hbuffer hfile).elim

theorem Behind.filled (hb : Behind ends size blanks s t) :
    Behind ends size blanks s.filled t.filled where
  rest := by rw [filled_rest, filled_rest, hb.rest]
  blank := hb.blank
  whole := .inl hb.whole.filled
  nonempty chunk hchunk := hb.nonempty chunk (filled_src s chunk hchunk)
  le := by rw [filled_pos]; exact hb.le
  ends := by
    rw [filled_pos]
    exact fun e he => hb.ends e (chunkEnds_filled _ _ e he)
  size := by rw [filled_pos, filled_rest, hb.size]

theorem Near.filled (hn : Near ends size blanks s t) : Near ends size blanks s.filled t.filled where
  toBehind := hn.toBehind.filled
  clear := by
    rw [filled_pos, filled_rest]
    exact fun e he => hn.clear e (chunkEnds_filled _ _ e he)

theorem Behind.near (hb : Behind ends size [] s t) : Near ends size [] s t where
  toBehind := hb
  clear _ _ hlt := .inl hlt

/-- Only the buffers, the reads to come and the place of `t` matter. -/
theorem Behind.congr {s' t' : Lexer} (hb : Behind ends size blanks s t)
    (hs : s'.buffer = s.buffer ∧ s'.src = s.src)
    (ht : t'.buffer = t.buffer ∧ t'.src = t.src ∧ t'.pos = t.pos) :
    Behind ends size blanks s' t' := by
  have hrest : s'.rest = s.rest := by rw [Lexer.rest, hs.1, hs.2, Lexer.rest]
  have hrest' : t'.rest = t.rest := by rw [Lexer.rest, ht.1, ht.2.1, Lexer.rest]
  refine ⟨by rw [hrest, hrest', hb.rest], hb.blank, ?_, by rw [hs.2]; exact hb.nonempty,
    by rw [ht.2.2]; exact hb.le, by rw [ht.2.2, hs.1, hs.2]; exact hb.ends,
    by rw [ht.2.2, hrest', hb.size]⟩
  rw [Whole, ht.1, ht.2.1]
  exact hb.whole

/-- At the same place both buffers are empty, or both start with the same byte. -/
theorem Behind.buffers (hb : Behind ends size [] s t) :
    s.filled.buffer = [] ∧ t.filled.buffer = [] ∧ t.rest = [] ∨
      ∃ c sbuffer tbuffer, s.filled.buffer = c :: sbuffer ∧ t.filled.buffer = c :: tbuffer := by
  have hrest : s.rest = t.rest := hb.rest
  have hs := filled_buffer_eq_nil hb.nonempty
  have ht := filled_buffer_eq_nil hb.whole.nonempty
  cases hsb : s.filled.buffer with
  | nil =>
    have hnil : t.rest = [] := hrest ▸ hs.mp hsb
    exact .inl ⟨rfl, ht.mpr hnil, hnil⟩
  | cons c sbuffer =>
    cases htb : t.filled.buffer with
    | nil =>
      rw [hs.mpr (hrest.trans (ht.mp htb))] at hsb
      cases hsb
    | cons c' tbuffer =>
      have hcons := hb.filled.rest
      rw [List.nil_append, Lexer.rest, Lexer.rest, hsb, htb, List.cons_append,
        List.cons_append] at hcons
      obtain rfl : c = c' := (List.cons.inj hcons).1
      exact .inr ⟨c, sbuffer, tbuffer, rfl, rfl⟩

/-- Both lexers go on in their buffers, until `s` has `blanks'` before it that `t` has behind it. -/
theorem Behind.advance {s' t' : Lexer} {blanks' p q : List UInt8}
    (hb : Behind ends size blanks s t) (hs : s.buffer = p ++ s'.buffer ∧ s'.src = s.src)
    (ht : t.buffer = q ++ t'.buffer ∧ t'.src = t.src ∧ t'.pos = t.pos + q.length)
    (hsrc : t.src = []) (hblanks : blanks ++ q = p ++ blanks')
    (hblank : ∀ c ∈ blanks', isBlank c = true) : Behind ends size blanks' s' t' := by
  have hsrest : s.rest = p ++ s'.rest := by
    rw [Lexer.rest, hs.1, Lexer.rest, hs.2, List.append_assoc]
  have htrest : t.rest = q ++ t'.rest := by
    rw [Lexer.rest, ht.1, Lexer.rest, ht.2.1, List.append_assoc]
  have hrest : p ++ s'.rest = p ++ (blanks' ++ t'.rest) := by
    rw [← hsrest, hb.rest, htrest, ← List.append_assoc, hblanks, List.append_assoc]
  have hlen : blanks.length + q.length = p.length + blanks'.length := by
    rw [← List.length_append, hblanks, List.length_append]
  have hle := hb.le
  have hsize := hb.size
  have hstart : t'.pos - blanks'.length = t.pos - blanks.length + p.length := by
    rw [ht.2.2]
    omega
  rw [htrest, List.length_append] at hsize
  refine ⟨List.append_cancel_left hrest, hblank, .inl (ht.2.1.trans hsrc), ?_, ?_, ?_, ?_⟩
  · rw [hs.2]
    exact hb.nonempty
  · rw [ht.2.2]
    omega
  · intro e he hlt
    rw [hstart, hs.2, ← chunkEnds_append, ← hs.1] at he
    exact hb.ends e he (by omega)
  · rw [ht.2.2]
    omega

/-! ## The readers that do not skip white space -/

/-- What has been reported does not become undivided later. -/
theorem allUndivided_closed (l l' : List Event) (hl : AllUndivided ends size (l ++ l')) :
    AllUndivided ends size l :=
  List.IsChain.left_of_append hl

theorem getRawChar_apply (s : Lexer) : getRawChar s =
    match s.filled.buffer with
    | [] => ⟨some eof, s.filled, []⟩
    | c :: buffer =>
      ⟨some c, { s.filled with
        buffer := buffer, lineLoc := s.filled.lineLoc + 1, pos := s.filled.pos + 1 }, [.read]⟩ := by
  unfold getRawChar
  rw [bind_of_some (by rw [fillBuffer_apply])]
  cases hbuffer : s.filled.buffer <;> simp [fillBuffer_apply, bind_apply, hbuffer]

theorem getRawChar_agrees : Agrees (AllUndivided ends size) (Aligned ends size) getRawChar := by
  intro l s t hb _
  rw [getRawChar_apply s, getRawChar_apply t]
  rcases Behind.buffers hb with ⟨hs, ht, -⟩ | ⟨c, sbuffer, tbuffer, hs, ht⟩
  · rw [hs, ht]
    exact ⟨rfl, Behind.filled hb⟩
  · rw [hs, ht]
    refine ⟨rfl, (Behind.filled hb).advance (p := [c]) (q := [c]) ⟨hs, rfl⟩ ⟨ht, rfl, rfl⟩
      hb.whole.filled rfl (by simp)⟩

theorem skipSpaces_agrees (c : UInt8) :
    Agrees (AllUndivided ends size) (Aligned ends size) (skipSpaces fuel c) := by
  refine Agrees.loop allUndivided_closed (fun c => ?_) fuel c
  exact Agrees.ite (Agrees.map allUndivided_closed getRawChar_agrees) (Agrees.pure _)

theorem getChar_agrees (skipSpace : Bool) :
    Agrees (AllUndivided ends size) (Aligned ends size) (getChar h fuel skipSpace) := by
  refine Agrees.bind allUndivided_closed getRawChar_agrees fun c => ?_
  refine Agrees.bind allUndivided_closed (Agrees.ite (skipSpaces_agrees c) (Agrees.pure c))
    fun c => ?_
  refine Agrees.bind allUndivided_closed ?_ fun _ => Agrees.pure _
  refine Sim.update fun l s t hb => ⟨rfl, ?_⟩
  split
  · exact Behind.congr hb ⟨rfl, rfl⟩ ⟨rfl, rfl, rfl⟩
  · exact hb

theorem consumeChar_agrees :
    Agrees (AllUndivided ends size) (Aligned ends size) (consumeChar h fuel) :=
  Agrees.bind allUndivided_closed (getChar_agrees false) fun _ => Agrees.pure ()

/-- The two lexers report an error at lines of their own. -/
theorem error_agrees (text : String) :
    Agrees (AllUndivided ends size) (Aligned ends size) (error text) :=
  fun _ _ _ hb _ => ⟨rfl, hb⟩

theorem peekChar_false_apply (s : Lexer) :
    peekChar false s = ⟨some s.filled.buffer.head?, s.filled, []⟩ := by
  unfold peekChar
  rw [bind_of_some (by rw [fillBuffer_apply])]
  cases hbuffer : s.filled.buffer <;> simp [fillBuffer_apply, bind_apply, hbuffer]

theorem peekChar_false_agrees :
    Agrees (AllUndivided ends size) (Aligned ends size) (peekChar false) := by
  intro l s t hb _
  rw [peekChar_false_apply s, peekChar_false_apply t]
  refine ⟨?_, Behind.filled hb⟩
  rcases Behind.buffers hb with ⟨hs, ht, -⟩ | ⟨c, sbuffer, tbuffer, hs, ht⟩
  · rw [hs, ht]
  · rw [hs, ht]
    rfl

theorem collect_false_agrees (accept : UInt8 → Bool) (value : List UInt8) :
    Agrees (AllUndivided ends size) (Aligned ends size) (collect h fuel false accept value) := by
  refine Agrees.loop allUndivided_closed (fun value => ?_) fuel value
  refine Agrees.bind allUndivided_closed peekChar_false_agrees fun found => ?_
  cases found with
  | none => exact Agrees.pure _
  | some c =>
    refine Agrees.ite ?_ (Agrees.pure _)
    exact Agrees.bind allUndivided_closed consumeChar_agrees fun _ => Agrees.pure _

theorem lexHexAndBinaryNum_agrees (c : UInt8) :
    Agrees (AllUndivided ends size) (Aligned ends size) (lexHexAndBinaryNum h fuel c) := by
  refine Agrees.ite ?_ (Agrees.ite ?_ (Agrees.pure _))
  · refine Agrees.bind allUndivided_closed consumeChar_agrees fun _ => ?_
    exact Agrees.bind allUndivided_closed (collect_false_agrees _ _) fun _ => Agrees.pure _
  · refine Agrees.bind allUndivided_closed consumeChar_agrees fun _ => ?_
    exact Agrees.bind allUndivided_closed (collect_false_agrees _ _) fun _ => Agrees.pure _

/-- An error ends the call. -/
theorem error_then_agrees {α : Type} (text : String) (a : α) :
    Agrees (AllUndivided ends size) (Aligned ends size) (do error text; return a) :=
  Agrees.bind allUndivided_closed (error_agrees text) fun _ => Agrees.pure a

theorem processComment_agrees :
    Agrees (AllUndivided ends size) (Aligned ends size) (processComment h fuel) := by
  refine Agrees.bind allUndivided_closed consumeChar_agrees fun _ => ?_
  refine Agrees.bind allUndivided_closed (getChar_agrees _) ?_
  rintro ⟨c, found⟩
  refine Agrees.ite (error_then_agrees _ _) (Agrees.ite ?_ (Agrees.ite ?_ (error_then_agrees _ _)))
  · -- a comment to the end of the line
    refine Agrees.bind allUndivided_closed ?_ fun c =>
      Agrees.ite (error_then_agrees _ _) (Agrees.pure _)
    refine Agrees.loop allUndivided_closed (fun c => Agrees.ite (Agrees.pure _) ?_) fuel c
    refine Agrees.bind allUndivided_closed (getChar_agrees _) ?_
    rintro ⟨c, found⟩
    exact Agrees.pure _
  · -- a comment between stars
    refine Agrees.bind allUndivided_closed ?_ ?_
    · refine Agrees.loop allUndivided_closed (fun _ => ?_) fuel ()
      refine Agrees.bind allUndivided_closed (getChar_agrees _) ?_
      rintro ⟨c, found⟩
      refine Agrees.ite (Agrees.pure _) (Agrees.ite ?_ (Agrees.pure _))
      refine Agrees.bind allUndivided_closed (getChar_agrees _) ?_
      rintro ⟨c, found⟩
      exact Agrees.pure _
    · rintro (_ | c)
      · exact Agrees.pure _
      · exact Agrees.ite (error_then_agrees _ _) (Agrees.pure _)

/-! ## The tokens that are read without skipping white space -/

/-- The calls return the same, but for the line of the token. -/
def SameToken (r r' : Bool × Token) : Prop := r.1 = r'.1 ∧ r.2.view = r'.2.view

/-- A call that returns a token leaves both lexers at the same place. -/
def TokenAgrees (ends : List Nat) (size : Nat) (m m' : LexM (Bool × Token)) : Prop :=
  Sim (AllUndivided ends size) (Aligned ends size) m m' fun r r' l s t =>
    SameToken r r' ∧ Aligned ends size l s t

variable {token token' : Token}

theorem view_eq_iff : token.view = token'.view ↔
    token.type = token'.type ∧ token.strval = token'.strval ∧ token.numval = token'.numval := by
  simp [Token.view]

/-- A token is returned with the line as it is. -/
theorem returnToken_agrees {f : Nat → Token} (hf : ∀ m n, (f m).view = (f n).view) {g : Nat → Token}
    (hfg : ∀ n, (f n).view = (g n).view) :
    TokenAgrees ends size (do let s ← state; return (true, f s.lineno))
      (do let s ← state; return (true, g s.lineno)) := by
  intro l s t hb _
  refine ⟨⟨rfl, ?_⟩, hb⟩
  show (f s.lineno).view = (g t.lineno).view
  rw [hf s.lineno t.lineno, hfg]

theorem errorToken_agrees (htoken : token.view = token'.view) (text : String) :
    TokenAgrees ends size (do error text; return (false, token))
      (do error text; return (false, token')) :=
  Agrees.then allUndivided_closed (error_agrees text) fun _ =>
    Sim.pure fun _ _ _ hb => ⟨⟨rfl, htoken⟩, hb⟩

theorem lexFromString_agrees (htoken : token.view = token'.view) :
    TokenAgrees ends size (lexFromString h fuel token) (lexFromString h fuel token') := by
  obtain ⟨-, -, hnumval⟩ := view_eq_iff.mp htoken
  refine Agrees.then allUndivided_closed (getChar_agrees false) fun _ => ?_
  refine Agrees.then allUndivided_closed ?_ ?_
  · refine Agrees.loop allUndivided_closed (fun value => ?_) fuel []
    refine Agrees.bind allUndivided_closed (getChar_agrees false) ?_
    rintro ⟨c, found⟩
    refine Agrees.ite (Agrees.ite ?_ (Agrees.pure _)) (Agrees.pure _)
    refine Agrees.bind allUndivided_closed (getChar_agrees false) ?_
    rintro ⟨c, found⟩
    exact Agrees.ite (error_then_agrees _ _) (Agrees.pure _)
  · rintro (_ | ⟨value, c⟩)
    · exact Sim.pure fun _ _ _ hb => ⟨⟨rfl, htoken⟩, hb⟩
    · refine Sim.ite (fun _ => errorToken_agrees htoken _) fun _ => ?_
      exact returnToken_agrees (fun _ _ => rfl) fun _ => by simp [Token.view, hnumval]

theorem literalType_view (value : List UInt8) (hnumval : token.numval = token'.numval) :
    (literalType value token).type = (literalType value token').type ∧
      (literalType value token).numval = (literalType value token').numval := by
  unfold literalType
  split
  · exact ⟨rfl, rfl⟩
  · split
    · exact ⟨rfl, rfl⟩
    · split <;> exact ⟨rfl, hnumval⟩

theorem lexFromLiteral_agrees (htoken : token.view = token'.view) :
    Sim (AllUndivided ends size) (Aligned ends size) (lexFromLiteral h fuel token)
      (lexFromLiteral h fuel token') fun r r' l s t =>
        r.view = r'.view ∧ Aligned ends size l s t := by
  obtain ⟨-, -, hnumval⟩ := view_eq_iff.mp htoken
  refine Agrees.then allUndivided_closed (collect_false_agrees _ _) fun value => ?_
  intro l s t hb _
  obtain ⟨htype, hnum⟩ := literalType_view value hnumval
  exact ⟨view_eq_iff.mpr ⟨htype, rfl, hnum⟩, hb⟩

theorem lexInclude_agrees (htoken : token.view = token'.view) :
    TokenAgrees ends size (lexInclude h fuel token) (lexInclude h fuel token') := by
  refine Agrees.then allUndivided_closed consumeChar_agrees fun _ => ?_
  refine Sim.bind allUndivided_closed (lexFromLiteral_agrees htoken) fun r r' => ?_
  intro l s t hr hundivided
  obtain ⟨hview, hb⟩ := hr
  obtain ⟨-, hstrval, hnumval⟩ := view_eq_iff.mp hview
  have hsim : TokenAgrees ends size
      (if r.strval ≠ bytes "include" then return (false, r)
        else return (true, { r with type := .include }))
      (if r'.strval ≠ bytes "include" then return (false, r')
        else return (true, { r' with type := .include })) := by
    rw [hstrval]
    refine Sim.ite (fun _ => Sim.pure fun _ _ _ hb => ⟨⟨rfl, hview⟩, hb⟩) fun _ => ?_
    exact Sim.pure fun _ _ _ hb => ⟨⟨rfl, view_eq_iff.mpr ⟨rfl, rfl, hnumval⟩⟩, hb⟩
  exact hsim l s t hb hundivided

/-! ## Skipping white space -/

theorem skipBlanks_spec (buffer : List UInt8) : ∀ s : Lexer,
    (s.skipBlanks buffer).buffer = buffer.dropWhile isBlank ∧ (s.skipBlanks buffer).src = s.src ∧
      (s.skipBlanks buffer).pos = s.pos + (buffer.takeWhile isBlank).length := by
  induction buffer with
  | nil => exact fun s => ⟨rfl, rfl, rfl⟩
  | cons c buffer ih =>
    intro s
    rw [skipBlanks]
    by_cases hc : isBlank c = true
    · have hc' : (isSpace c || c == byte '\n') = true := hc
      rw [if_pos hc', List.dropWhile_cons_of_pos hc, List.takeWhile_cons_of_pos hc]
      obtain ⟨hbuffer, hsrc, hpos⟩ := ih _
      refine ⟨hbuffer, hsrc, hpos.trans ?_⟩
      rw [List.length_cons]
      show s.pos + 1 + _ = _
      omega
    · have hc' : ¬ (isSpace c || c == byte '\n') = true := hc
      rw [if_neg hc', List.dropWhile_cons_of_neg hc, List.takeWhile_cons_of_neg hc]
      exact ⟨rfl, rfl, rfl⟩

theorem peekChar_true_apply (s : Lexer) : peekChar true s =
    if s.filled.buffer = [] then ⟨some none, s.filled, []⟩
    else
      ⟨some (s.filled.buffer.dropWhile isBlank).head?, s.filled.skipBlanks s.filled.buffer,
        [.skip s.filled.pos (s.filled.skipBlanks s.filled.buffer).pos]⟩ := by
  unfold peekChar
  rw [bind_of_some (by rw [fillBuffer_apply]), fillBuffer_apply]
  by_cases hbuffer : s.filled.buffer = []
  · simp [hbuffer]
  · simp [hbuffer, skip, bind_apply, (skipBlanks_spec _ _).1]

/-- `PeekChar` has come to the end of the buffer of `s`, and `t` has found `c`. -/
def Crossed (ends : List Nat) (size : Nat) (c : UInt8) (l : List Event) (s t : Lexer) : Prop :=
  t.buffer.head? = some c ∧ t.rest ≠ [] ∧ Stopped ends size l s t

/-- What `PeekChar` comes to in the two lexers. -/
def PeekPost (ends : List Nat) (size : Nat) :
    Option UInt8 → Option UInt8 → List Event → Lexer → Lexer → Prop
  | some c, some c' => fun l s t => c = c' ∧ Aligned ends size l s t
  | none, none => Stopped ends size
  | none, some c => Crossed ends size c
  | some _, none => fun _ _ _ => False

/-- Both lexers skip the white space at the front of their buffers. -/
theorem Behind.skipBlanks {blanks' : List UInt8} (hb : Behind ends size blanks s t)
    (hsrc : t.src = [])
    (hblanks : blanks ++ t.buffer.takeWhile isBlank = s.buffer.takeWhile isBlank ++ blanks')
    (hblank : ∀ c ∈ blanks', isBlank c = true) :
    Behind ends size blanks' (s.skipBlanks s.buffer) (t.skipBlanks t.buffer) := by
  obtain ⟨hsbuffer, hssrc, -⟩ := skipBlanks_spec s.buffer s
  obtain ⟨htbuffer, htsrc, htpos⟩ := skipBlanks_spec t.buffer t
  refine hb.advance ⟨?_, hssrc⟩ ⟨?_, htsrc, htpos⟩ hsrc hblanks hblank
  · rw [hsbuffer, List.takeWhile_append_dropWhile]
  · rw [htbuffer, List.takeWhile_append_dropWhile]

theorem dropWhile_head_not_blank {buffer rest : List UInt8} {c : UInt8}
    (h : buffer.dropWhile isBlank = c :: rest) : isBlank c = false := by
  have hhead := List.head?_dropWhile_not isBlank buffer
  rw [h] at hhead
  exact hhead

/-- A text that starts with the white space of `w` is cut: the first buffer ends within `w`, or it
goes beyond it. -/
theorem buffer_cases {buffer later w tail : List UInt8} (hw : ∀ c ∈ w, isBlank c = true)
    (h : buffer ++ later = w ++ tail.dropWhile isBlank) :
    (∃ w', w = buffer ++ w') ∨
      ∃ c, buffer.takeWhile isBlank = w ∧ (buffer.dropWhile isBlank).head? = some c ∧
        (tail.dropWhile isBlank).head? = some c := by
  rcases List.append_eq_append_iff.mp h with ⟨w', hw', -⟩ | ⟨buffer', hbuffer, htail⟩
  · exact .inl ⟨w', hw'⟩
  · cases buffer' with
    | nil => exact .inl ⟨[], by rw [hbuffer, List.append_nil, List.append_nil]⟩
    | cons c buffer' =>
      have hc : ¬ isBlank c = true := by simp [dropWhile_head_not_blank htail]
      refine .inr ⟨c, ?_, ?_, by rw [htail]; rfl⟩
      · rw [hbuffer, List.takeWhile_append_of_pos hw, List.takeWhile_cons_of_neg hc,
          List.append_nil]
      · rw [hbuffer, List.dropWhile_append_of_pos hw, List.dropWhile_cons_of_neg hc]
        rfl

/-- The buffer of `s` ends in the white space or behind it, or both lexers find the same byte. -/
theorem Behind.skip_cases (hb : Behind ends size blanks s t) (hsrc : t.src = []) :
    (s.buffer.dropWhile isBlank = [] ∧ ∃ blanks',
      blanks ++ t.buffer.takeWhile isBlank = s.buffer ++ blanks' ∧
        Behind ends size blanks' (s.skipBlanks s.buffer) (t.skipBlanks t.buffer)) ∨
    ∃ c, (s.buffer.dropWhile isBlank).head? = some c ∧
      (t.buffer.dropWhile isBlank).head? = some c ∧
        Behind ends size [] (s.skipBlanks s.buffer) (t.skipBlanks t.buffer) := by
  have hw : ∀ c ∈ blanks ++ t.buffer.takeWhile isBlank, isBlank c = true := by
    intro c hc
    rcases List.mem_append.mp hc with hc | hc
    · exact hb.blank c hc
    · exact List.mem_takeWhile_imp hc
  have hall : s.buffer ++ s.src.flatten =
      (blanks ++ t.buffer.takeWhile isBlank) ++ t.buffer.dropWhile isBlank := by
    rw [List.append_assoc, List.takeWhile_append_dropWhile]
    simpa [Lexer.rest, hsrc] using hb.rest
  rcases buffer_cases hw hall with ⟨blanks', hblanks⟩ | ⟨c, htake, hs, ht⟩
  · rw [hblanks] at hw
    have hbuffer : ∀ c ∈ s.buffer, isBlank c = true := fun c hc =>
      hw c (List.mem_append_left _ hc)
    refine .inl ⟨List.dropWhile_eq_nil_iff.mpr hbuffer, blanks', hblanks, ?_⟩
    refine hb.skipBlanks hsrc ?_ fun c hc => hw c (List.mem_append_right _ hc)
    rw [List.takeWhile_eq_self_iff.mpr hbuffer, hblanks]
  · refine .inr ⟨c, hs, ht, hb.skipBlanks hsrc ?_ (by simp)⟩
    rw [htake, List.append_nil]

theorem rest_skipBlanks (hsrc : t.src = []) :
    (t.skipBlanks t.buffer).rest = t.buffer.dropWhile isBlank := by
  obtain ⟨hskipped, hskippedSrc, -⟩ := skipBlanks_spec t.buffer t
  rw [Lexer.rest, hskipped, hskippedSrc, hsrc]
  simp

/-- Both buffers begin with white space, and that of `s` ends in it. Before a byte `c` behind it, the
one that reads in chunks has crossed an end. -/
theorem Near.crossed (hf : Near ends size blanks s t) (hsrc : t.src = []) (hbuffer : s.buffer ≠ [])
    {w d : List UInt8} {c : UInt8} {l : List Event}
    (hw : blanks ++ t.buffer.takeWhile isBlank = s.buffer ++ w)
    (hbehind : Behind ends size w (s.skipBlanks s.buffer) (t.skipBlanks t.buffer))
    (hd : t.buffer.dropWhile isBlank = c :: d) :
    Crossed ends size c (l ++ [.skip t.pos (t.skipBlanks t.buffer).pos]) (s.skipBlanks s.buffer)
      (t.skipBlanks t.buffer) := by
  obtain ⟨hskipped, -, hpos⟩ := skipBlanks_spec t.buffer t
  have hne : t.rest ≠ [] := by
    intro hnil
    rw [Lexer.rest, hsrc, List.flatten_nil, List.append_nil] at hnil
    rw [hnil] at hd
    cases hd
  -- the buffer of `s` starts where the skipping starts, or before it, and ends behind that
  have hlen := congrArg List.length hw
  rw [List.length_append, List.length_append] at hlen
  have hsome : 0 < s.buffer.length := List.length_pos_iff.mpr hbuffer
  have hle := hf.le
  have hstart : (t.skipBlanks t.buffer).pos - w.length =
      t.pos - blanks.length + s.buffer.length := by
    rw [hpos]
    omega
  have hend : t.pos - blanks.length + s.buffer.length ∈
      chunkEnds (t.pos - blanks.length) (s.buffer :: s.src) := List.mem_cons_self
  refine ⟨?_, ?_, w, hbehind, .inr ⟨t.pos, ?_, ?_, ?_⟩⟩
  · rw [hskipped, hd]
    rfl
  · rw [rest_skipBlanks hsrc, hd]
    simp
  · rw [List.getLast?_append]
    rfl
  · rw [hstart]
    exact (hf.clear _ hend (by omega)).resolve_right hne
  · rw [hstart]
    exact hf.ends _ hend (by omega)

/-- **`PeekChar` and the end of the buffer.** Unless both lexers find the same byte, the one that
reads in chunks has come to an end of its buffer, in the white space or behind it. -/
theorem peekChar_true_sim (hn : Near ends size blanks s t) {l : List Event} :
    Matches (PeekPost ends size) (l ++ (peekChar true t).trace) (peekChar true s)
      (peekChar true t) := by
  have hf := hn.filled
  have hsrc : t.filled.src = [] := hn.whole.filled
  have htrest : t.filled.rest = t.filled.buffer := by rw [Lexer.rest, hsrc]; simp
  have hsnil := filled_buffer_eq_nil hn.nonempty
  rw [← filled_rest] at hsnil
  rw [peekChar_true_apply s, peekChar_true_apply t]
  generalize s.filled = u at *
  generalize t.filled = v at *
  by_cases hu : u.buffer = []
  · -- the file has come to its end
    have hv : v.buffer = [] := by
      have hrest := hf.rest
      rw [hsnil.mp hu, htrest] at hrest
      exact (List.append_eq_nil_iff.mp hrest.symm).2
    rw [if_pos hu, if_pos hv]
    exact ⟨blanks, hf.toBehind, .inl (htrest.trans hv)⟩
  rw [if_neg hu]
  rcases hf.toBehind.skip_cases hsrc with ⟨hnone, w, hw, hbehind⟩ | ⟨c, hc, hc', hbehind⟩
  · rw [hnone]
    by_cases hv : v.buffer = []
    · -- nothing is left but the blanks that `s` has before it
      obtain ⟨hvbuffer, hvsrc, hvpos⟩ := skipBlanks_spec v.buffer v
      rw [hv] at hvbuffer hvsrc hvpos hbehind
      rw [if_pos hv]
      exact ⟨w, hbehind.congr ⟨rfl, rfl⟩ ⟨hv.trans hvbuffer.symm, hvsrc.symm, hvpos.symm⟩,
        .inl (htrest.trans hv)⟩
    · rw [if_neg hv]
      cases hd : v.buffer.dropWhile isBlank with
      | nil => exact ⟨w, hbehind, .inl ((rest_skipBlanks hsrc).trans hd)⟩
      | cons c d => exact hf.crossed hsrc hu hw hbehind hd
  · have hv : v.buffer ≠ [] := by
      intro hv
      rw [hv] at hc'
      cases hc'
    rw [if_neg hv, hc, hc']
    exact ⟨rfl, hbehind⟩

theorem peekChar_true_near :
    Sim (AllUndivided ends size) (fun _ s t => ∃ blanks, Near ends size blanks s t) (peekChar true)
      (peekChar true) (PeekPost ends size) := by
  rintro l s t ⟨blanks, hn⟩ -
  exact peekChar_true_sim hn

theorem peekChar_true_aligned :
    Sim (AllUndivided ends size) (Aligned ends size) (peekChar true) (peekChar true)
      (PeekPost ends size) :=
  peekChar_true_near.pre fun _ _ _ hb => ⟨[], Behind.near hb⟩

theorem mem_cuts {e start stop : Nat} :
    e ∈ cuts ends start stop ↔ e ∈ ends ∧ start < e ∧ e ≤ stop := by
  simp [cuts]

/-- After white space with a chunk end in it, only a further call of `Lex` leaves it undivided, and
then there is no other chunk end in it. -/
theorem AllUndivided.divided {start stop cut : Nat} {e : Event} {l' : List Event}
    (hundivided : AllUndivided ends size (l ++ e :: l'))
    (hlast : l.getLast? = some (.skip start stop)) (hstop : stop ≠ size)
    (hcut : cut ∈ cuts ends start stop) : e = .lex ∧ (cuts ends start stop).length ≤ 1 := by
  obtain ⟨-, -, hchain⟩ := List.isChain_append.mp hundivided
  rcases hchain _ hlast e rfl with hsize | hcuts | hlex
  · exact absurd hsize hstop
  · rw [hcuts] at hcut
    cases hcut
  · exact hlex

/-- Before the end of the file. -/
theorem Behind.pos_ne_size (hb : Behind ends size blanks s t) (hrest : t.rest ≠ []) :
    t.pos ≠ size := by
  have hpos := List.length_pos_iff.mpr hrest
  have hsize := hb.size
  omega

theorem Crossed.not_allUndivided {c : UInt8} (hc : Crossed ends size c l s t) {e : Event}
    (he : e ≠ .lex) (l' : List Event) : ¬ AllUndivided ends size (l ++ e :: l') := by
  intro hundivided
  obtain ⟨-, hrest, blanks, hb, hnil | ⟨start, hlast, hstart, hmem⟩⟩ := hc
  · exact hrest hnil
  · have hcut := mem_cuts.mpr ⟨hmem, hstart, Nat.sub_le _ _⟩
    exact he (AllUndivided.divided hundivided hlast (hb.pos_ne_size hrest) hcut).1

/-- The first thing that the program reports, with `c` in the buffer, is not a call of `Lex`. -/
def Reports {α : Type} (c : UInt8) (m : LexM α) : Prop :=
  ∀ t : Lexer, t.Whole → t.rest ≠ [] → t.buffer.head? = some c →
    ∃ e l, (m t).trace = e :: l ∧ e ≠ .lex

theorem Reports.bind {α β : Type} {c : UInt8} {m : LexM α} (hm : Reports c m) (f : α → LexM β) :
    Reports c (m >>= f) := by
  intro t hw hrest hhead
  obtain ⟨e, l, htrace, he⟩ := hm t hw hrest hhead
  obtain ⟨l', hl'⟩ := trace_bind m f t
  exact ⟨e, l ++ l', by rw [hl', htrace, List.cons_append], he⟩

/-- What reports something where `PeekChar` has crossed a chunk end is not in an undivided run. -/
theorem Reports.sim {α β : Type} {c : UInt8} {m : LexM α} {m' : LexM β} (hm : Reports c m')
    {Q : α → β → List Event → Lexer → Lexer → Prop} :
    Sim (AllUndivided ends size) (Crossed ends size c) m m' Q := by
  refine Sim.of_not_fine fun l s t hc => ?_
  obtain ⟨hhead, hrest, blanks, hb, -⟩ := id hc
  obtain ⟨e, l', htrace, he⟩ := hm t hb.whole hrest hhead
  rw [htrace]
  exact hc.not_allUndivided he l'

theorem getRawChar_reports (c : UInt8) : Reports c getRawChar := by
  intro t hw hrest _
  rw [getRawChar_apply]
  cases hbuffer : t.filled.buffer with
  | nil => exact absurd ((filled_buffer_eq_nil hw.nonempty).mp hbuffer) hrest
  | cons c buffer => exact ⟨_, _, rfl, by simp⟩

theorem getChar_reports (c : UInt8) (skipSpace : Bool) :
    Reports c (getChar h fuel skipSpace) :=
  (getRawChar_reports c).bind _

theorem consumeChar_reports (c : UInt8) : Reports c (consumeChar h fuel) :=
  (getChar_reports c false).bind _

theorem error_reports (c : UInt8) (text : String) : Reports c (error text) :=
  fun _ _ _ _ => ⟨_, _, rfl, by simp⟩

/-- What comes after a look at the character. -/
theorem Reports.after {α β : Type} {c : UInt8} {m : LexM α} {f : α → LexM β} {a : α}
    (hm : ∀ t : Lexer, t.buffer.head? = some c → m t = ⟨some a, t, []⟩) (hf : Reports c (f a)) :
    Reports c (m >>= f) := by
  intro t hw hrest hhead
  obtain ⟨e, l, htrace, he⟩ := hf t hw hrest hhead
  refine ⟨e, l, ?_, he⟩
  rw [bind_apply, hm t hhead]
  exact htrace

theorem peekChar_true_reports (c : UInt8) : Reports c (peekChar true) := by
  intro t hw hrest _
  rw [peekChar_true_apply, if_neg fun h => hrest ((filled_buffer_eq_nil hw.nonempty).mp h)]
  exact ⟨_, _, rfl, by simp⟩

/-- A character that is accepted is consumed, or skipped to once more. -/
theorem collect_reports {c : UInt8} {accept : UInt8 → Bool} (haccept : accept c = true)
    (skipSpace : Bool) (value : List UInt8) :
    Reports c (collect h (fuel + 1) skipSpace accept value) := by
  refine Reports.bind ?_ _
  cases skipSpace with
  | true => exact (peekChar_true_reports c).bind _
  | false =>
    refine Reports.after (a := some c) (fun t hhead => ?_) ?_
    · rw [peekChar_false_apply, filled_of_head? hhead, hhead]
    · show Reports c (if accept c then _ else _)
      rw [if_pos haccept]
      exact (consumeChar_reports c).bind _

/-! ## The tokens -/

/-- A call of `Lex` and what it is made of return the same, and unless they fail, the lexers are
ready for the next call. -/
def CallPost (ends : List Nat) (size : Nat) (r r' : Bool × Token) (l : List Event) (s t : Lexer) :
    Prop :=
  SameToken r r' ∧ (r.1 = true → Settled ends size l s t)

theorem TokenAgrees.call {m m' : LexM (Bool × Token)} (hm : TokenAgrees ends size m m') :
    Sim (AllUndivided ends size) (Aligned ends size) m m' (CallPost ends size) :=
  hm.post fun _ _ _ _ _ hq => ⟨hq.1, fun _ => .inl hq.2⟩

/-- **A loop over digits that skips white space.** It ends at the end of a buffer too, but then the
next character would have ended it, or the white space is divided. -/
theorem collect_true_sim (accept : UInt8 → Bool) (value : List UInt8) :
    Sim (AllUndivided ends size) (Aligned ends size) (collect h fuel true accept value)
      (collect h fuel true accept value) fun a b l s t => a = b ∧ Settled ends size l s t := by
  refine Sim.loop_same allUndivided_closed (fun value => ?_) fuel value
  refine Sim.bind allUndivided_closed peekChar_true_aligned ?_
  rintro (_ | c) (_ | c')
  · exact Sim.pure fun _ _ _ hs => ⟨rfl, .inr hs⟩
  · -- a chunk end has been crossed: the loop ends unless `c'` belongs to the number
    refine Sim.ite_right (fun _ => ?_) fun _ => ?_
    · exact (Reports.bind (consumeChar_reports c') _).sim
    · exact Sim.pure fun _ _ _ hc => ⟨rfl, .inr hc.2.2⟩
  · exact Sim.of_not_fine fun _ _ _ hf => hf.elim
  · rintro l s t ⟨rfl, hb⟩
    refine Sim.ite (fun _ => ?_) (fun _ => Sim.pure fun _ _ _ hb => ⟨rfl, .inl hb⟩) l s t hb
    exact Agrees.then allUndivided_closed consumeChar_agrees fun _ =>
      Sim.pure fun _ _ _ hb => ⟨rfl, hb⟩

theorem collect_sim (skipSpace : Bool) (accept : UInt8 → Bool) (value : List UInt8) :
    Sim (AllUndivided ends size) (Aligned ends size) (collect h fuel skipSpace accept value)
      (collect h fuel skipSpace accept value)
      fun a b l s t => a = b ∧ Settled ends size l s t := by
  cases skipSpace with
  | true => exact collect_true_sim accept value
  | false =>
    exact (collect_false_agrees accept value).post fun _ _ _ _ _ hq => ⟨hq.1, .inl hq.2⟩

theorem lexNumber_sim (c : UInt8) :
    Sim (AllUndivided ends size) (Aligned ends size) (lexNumber h (fuel + 1) c)
      (lexNumber h (fuel + 1) c) fun a b l s t => a = b ∧ Settled ends size l s t := by
  refine Sim.ite (fun _ => ?_) fun _ => ?_
  · refine Sim.bind allUndivided_closed peekChar_true_aligned ?_
    rintro (_ | c) (_ | c')
    · exact Sim.pure fun _ _ _ hs => ⟨rfl, .inr hs⟩
    · -- a chunk end has been crossed after the 0
      refine Sim.ite_right (fun hc => ?_) fun _ => Sim.ite_right (fun _ => ?_) fun _ =>
        Sim.ite_right (fun _ => ?_) fun _ => ?_
      · exact (Reports.bind (collect_reports hc _ _) _).sim
      · exact (Reports.bind (consumeChar_reports c') _).sim
      · exact (Reports.bind (consumeChar_reports c') _).sim
      · exact Sim.pure fun _ _ _ hc => ⟨rfl, .inr hc.2.2⟩
    · exact Sim.of_not_fine fun _ _ _ hf => hf.elim
    · rintro l s t ⟨rfl, hb⟩
      refine Sim.ite (fun _ => ?_) (fun _ => ?_) l s t hb
      · refine Sim.bind allUndivided_closed (collect_sim _ _ _) fun a b => ?_
        exact Sim.pure fun _ _ _ hq => ⟨by rw [hq.1], hq.2⟩
      · exact (lexHexAndBinaryNum_agrees c).post fun _ _ _ _ _ hq => ⟨hq.1, .inl hq.2⟩
  · refine Sim.bind allUndivided_closed (collect_true_sim _ _) fun a b => ?_
    exact Sim.pure fun _ _ _ hq => ⟨by rw [hq.1], hq.2⟩

theorem lexFromNumber_sim (htoken : token.view = token'.view) :
    Sim (AllUndivided ends size) (Aligned ends size) (lexFromNumber h (fuel + 1) token)
      (lexFromNumber h (fuel + 1) token') (CallPost ends size) := by
  obtain ⟨-, hstrval, -⟩ := view_eq_iff.mp htoken
  refine Agrees.then allUndivided_closed (getChar_agrees false) ?_
  rintro ⟨c, found⟩
  refine Sim.bind allUndivided_closed (lexNumber_sim c) ?_
  rintro ⟨value, v, errno⟩ r l s t ⟨rfl, hs⟩
  refine Sim.ite (fun _ => ?_) (fun _ => ?_) l s t hs
  · intro l s t _ _
    exact ⟨⟨rfl, htoken⟩, fun hret => absurd hret (by simp)⟩
  · intro l s t hs _
    refine ⟨⟨rfl, view_eq_iff.mpr ⟨rfl, hstrval, rfl⟩⟩, fun _ => ?_⟩
    exact (List.append_nil l).symm ▸ hs

theorem setTokenCharacter_sim (htoken : token.view = token'.view) (c : UInt8) :
    Sim (AllUndivided ends size) (Aligned ends size) (setTokenCharacter h (fuel + 1) c token)
      (setTokenCharacter h (fuel + 1) c token') (CallPost ends size) := by
  obtain ⟨-, hstrval, hnumval⟩ := view_eq_iff.mp htoken
  refine Sim.ite (fun _ => ?_) fun _ => Sim.ite (fun _ => ?_) fun _ => Sim.ite (fun _ => ?_)
    fun _ => Sim.ite (fun _ => ?_) fun _ => ?_
  · refine Agrees.then allUndivided_closed consumeChar_agrees fun _ => TokenAgrees.call ?_
    exact returnToken_agrees (fun _ _ => rfl) fun _ => by simp [Token.view, hstrval, hnumval]
  · exact (lexFromString_agrees htoken).call
  · exact lexFromNumber_sim htoken
  · exact Sim.pure fun _ _ _ hb =>
      ⟨⟨rfl, view_eq_iff.mpr ⟨rfl, hstrval, hnumval⟩⟩, fun _ => .inl hb⟩
  · exact (errorToken_agrees htoken _).call

/-! ## `Lex` -/

/-- The lexers at the beginning of the loop of `Lex`. -/
def Looking (ends : List Nat) (size : Nat) (_ _ : Unit) (_ : List Event) (s t : Lexer) : Prop :=
  ∃ blanks, Near ends size blanks s t

/-- What comes of a character that both lexers find. -/
theorem lexChar_sim (htoken : token.view = token'.view) (c : UInt8) :
    Sim (AllUndivided ends size) (Aligned ends size) (lexChar h (fuel + 1) token c)
      (lexChar h (fuel + 1) token' c) (LoopPost (Looking ends size) (CallPost ends size)) := by
  refine Sim.ite (fun _ => ?_) fun _ => Sim.ite (fun _ => ?_) fun _ => Sim.ite (fun _ => ?_)
    fun _ => Sim.ite (fun _ => ?_) fun _ => ?_
  · exact Sim.map allUndivided_closed (lexInclude_agrees htoken).call
  · refine Sim.bind allUndivided_closed (lexFromLiteral_agrees htoken) fun r r' => ?_
    exact Sim.pure fun _ _ _ hq => ⟨⟨rfl, hq.1⟩, fun _ => .inl hq.2⟩
  · exact Sim.map allUndivided_closed (lexFromNumber_sim htoken)
  · refine Agrees.then allUndivided_closed processComment_agrees fun closed => ?_
    refine Sim.ite (fun _ => ?_) fun _ => ?_
    · exact Sim.pure fun _ _ _ hb => ⟨[], Behind.near hb⟩
    · exact Sim.pure fun _ _ _ hb => ⟨⟨rfl, htoken⟩, fun _ => .inl hb⟩
  · exact Sim.map allUndivided_closed (setTokenCharacter_sim htoken c)

theorem isSpace_of_isalpha {c : UInt8} (hc : isalpha c = true) : isSpace c = false := by
  cases hspace : isSpace c with
  | false => rfl
  | true =>
    simp only [isSpace, Bool.or_eq_true, beq_iff_eq] at hspace
    rcases hspace with (rfl | rfl) | rfl <;> exact absurd hc (by decide)

theorem setTokenCharacter_crossed (htoken : token.view = token'.view) (c : UInt8) :
    Sim (AllUndivided ends size) (Crossed ends size c)
      (pure (true, { token with type := .eof }) : LexM (Bool × Token))
      (setTokenCharacter h fuel c token') (CallPost ends size) := by
  obtain ⟨-, hstrval, hnumval⟩ := view_eq_iff.mp htoken
  refine Sim.ite_right (fun _ => ?_) fun _ => Sim.ite_right (fun _ => ?_) fun _ =>
    Sim.ite_right (fun _ => ?_) fun _ => Sim.ite_right (fun _ => ?_) fun _ => ?_
  · exact ((consumeChar_reports c).bind _).sim
  · exact ((getChar_reports c false).bind _).sim
  · exact ((getChar_reports c false).bind _).sim
  · exact Sim.pure fun _ _ _ hc =>
      ⟨⟨rfl, view_eq_iff.mpr ⟨rfl, hstrval, hnumval⟩⟩, fun _ => .inr hc.2.2⟩
  · exact ((error_reports c _).bind _).sim

/-- What comes of a character that only the lexer with the file in one buffer finds: it is reported
in some way, except for `EOF` itself. -/
theorem lexChar_crossed (htoken : token.view = token'.view) (c : UInt8) :
    Sim (AllUndivided ends size) (Crossed ends size c)
      (pure (.inr (true, { token with type := .eof })) : LexM (Unit ⊕ (Bool × Token)))
      (lexChar h (fuel + 1) token' c) (LoopPost (Looking ends size) (CallPost ends size)) := by
  refine Sim.ite_right (fun _ => ?_) fun _ => Sim.ite_right (fun hc => ?_) fun _ =>
    Sim.ite_right (fun _ => ?_) fun _ => Sim.ite_right (fun _ => ?_) fun _ => ?_
  · exact (((consumeChar_reports c).bind _).bind _).sim
  · refine (Reports.bind (Reports.bind (collect_reports ?_ _ _) _) _).sim
    simp [isSpace_of_isalpha hc, isalnum, hc]
  · exact (((getChar_reports c false).bind _).bind _).sim
  · exact (((consumeChar_reports c).bind _).bind _).sim
  · exact Sim.map (f := .inr) (g := .inr) (R := LoopPost (Looking ends size) (CallPost ends size))
      allUndivided_closed (setTokenCharacter_crossed htoken c)

/-- What `Lex` does in one iteration. -/
theorem lexBody_sim (htoken : token.view = token'.view) :
    Sim (AllUndivided ends size) (Looking ends size () ())
      (do
        match ← peekChar true with
        | none => return .inr (true, { token with type := .eof })
        | some c => lexChar h (fuel + 1) token c)
      (do
        match ← peekChar true with
        | none => return .inr (true, { token' with type := .eof })
        | some c => lexChar h (fuel + 1) token' c)
      (LoopPost (Looking ends size) (CallPost ends size)) := by
  obtain ⟨-, hstrval, hnumval⟩ := view_eq_iff.mp htoken
  refine Sim.bind allUndivided_closed peekChar_true_near ?_
  rintro (_ | c) (_ | c')
  · exact Sim.pure fun _ _ _ hs =>
      ⟨⟨rfl, view_eq_iff.mpr ⟨rfl, hstrval, hnumval⟩⟩, fun _ => .inr hs⟩
  · exact lexChar_crossed htoken c'
  · exact Sim.of_not_fine fun _ _ _ hf => hf.elim
  · rintro l s t ⟨rfl, hb⟩
    exact lexChar_sim htoken c l s t hb

theorem eq_of_mem_of_length_le_one {α : Type} {l : List α} {a b : α} (h : l.length ≤ 1)
    (ha : a ∈ l) (hb : b ∈ l) : a = b := by
  match l, h with
  | [x], _ => rw [List.mem_singleton.mp ha, List.mem_singleton.mp hb]

/-- The next call of `Lex` starts: of the chunk ends in the white space that was skipped at the end
of a number, only the one where `s` is may have been there. -/
theorem Settled.looking (hs : Settled ends size l s t)
    (hundivided : AllUndivided ends size (l ++ [.lex])) : Looking ends size () () l s t := by
  rcases hs with hb | ⟨blanks, hb, hrest⟩
  · exact ⟨[], Behind.near hb⟩
  · refine ⟨blanks, hb, fun e he hlt => ?_⟩
    by_cases hnil : t.rest = []
    · exact .inr hnil
    · obtain ⟨start, hlast, hstart, hmem⟩ := hrest.resolve_left hnil
      have hcut := mem_cuts.mpr ⟨hmem, hstart, Nat.sub_le _ _⟩
      obtain ⟨-, hone⟩ := AllUndivided.divided hundivided hlast (hb.pos_ne_size hnil) hcut
      refine .inl (Nat.lt_of_not_le fun hle => ?_)
      have hcut' : e ∈ cuts ends start t.pos :=
        mem_cuts.mpr ⟨hb.ends e he hlt, hstart.trans hlt, hle⟩
      have heq := eq_of_mem_of_length_le_one hone hcut hcut'
      omega

/-- **A call of `Lex`.** -/
theorem lex_sim :
    Sim (AllUndivided ends size) (Settled ends size) (lex h fuel) (lex h fuel)
      (CallPost ends size) := by
  refine Sim.bind (Q := fun _ _ => Looking ends size () ()) allUndivided_closed
    (Sim.emit fun l s t hs hundivided => hs.looking hundivided) fun _ _ => ?_
  refine Sim.bind (Q := fun a b l s t => a.view = b.view ∧ Looking ends size () () l s t)
    allUndivided_closed (fun l s t hl _ => ⟨rfl, hl⟩) fun token token' => ?_
  rintro l s t ⟨htoken, hl⟩
  cases fuel with
  | zero => exact Sim.outOfFuel l s t hl
  | succ fuel =>
    exact Sim.loop allUndivided_closed (fun _ _ => lexBody_sim htoken) (fuel + 1) () () l s t hl

end Lexer

/-- What the first call comes to decides how it goes on. -/
theorem lexAll_succ (n : Nat) (s : Lexer) : lexAll h fuel (n + 1) s =
    match (Lexer.lex h fuel s).result with
    | none => ([], .outOfFuel, (Lexer.lex h fuel s).trace)
    | some (false, _) => ([], .error, (Lexer.lex h fuel s).trace)
    | some (true, token) =>
      if token.type = .eof then ([], .eof, (Lexer.lex h fuel s).trace)
      else
        (token :: (lexAll h fuel n (Lexer.lex h fuel s).state).1,
          (lexAll h fuel n (Lexer.lex h fuel s).state).2.1,
          (Lexer.lex h fuel s).trace ++ (lexAll h fuel n (Lexer.lex h fuel s).state).2.2) := by
  rw [lexAll]
  split <;> next heq => rw [heq]

/-- The reports of the first call come first. -/
theorem lexAll_trace (h : Host) (fuel n : Nat) (t : Lexer) :
    ∃ l, (lexAll h fuel (n + 1) t).2.2 = (Lexer.lex h fuel t).trace ++ l := by
  rw [lexAll_succ]
  split
  · exact ⟨[], (List.append_nil _).symm⟩
  · exact ⟨[], (List.append_nil _).symm⟩
  · split
    · exact ⟨[], (List.append_nil _).symm⟩
    · exact ⟨_, rfl⟩

/-- The tokens of a file that is read in chunks, from wherever `Lex` is called. -/
theorem lexAll_sim (n : Nat) : ∀ {l : List Event} {s t : Lexer}, Lexer.Settled ends size l s t →
    AllUndivided ends size (l ++ (lexAll h fuel n t).2.2) →
    (lexAll h fuel n s).1.map Token.view = (lexAll h fuel n t).1.map Token.view ∧
      (lexAll h fuel n s).2.1 = (lexAll h fuel n t).2.1 := by
  induction n with
  | zero => exact fun _ _ => ⟨rfl, rfl⟩
  | succ n ih =>
    intro l s t hs hundivided
    obtain ⟨l', hl'⟩ := lexAll_trace h fuel n t
    have hfirst : AllUndivided ends size (l ++ (Lexer.lex h fuel t).trace) := by
      rw [hl', ← List.append_assoc] at hundivided
      exact Lexer.allUndivided_closed _ _ hundivided
    have hlex := Lexer.lex_sim l s t hs hfirst
    rw [lexAll_succ] at hundivided
    rw [lexAll_succ, lexAll_succ]
    unfold Matches at hlex
    split at hlex
    · next r r' hr hr' =>
      obtain ⟨⟨hret, hview⟩, hsettled⟩ := hlex
      obtain ⟨ret, token⟩ := r
      obtain ⟨ret', token'⟩ := r'
      obtain rfl : ret = ret' := hret
      obtain ⟨htype, -, -⟩ := Lexer.view_eq_iff.mp hview
      rw [hr'] at hundivided
      rw [hr, hr']
      cases ret with
      | false => exact ⟨rfl, rfl⟩
      | true =>
        simp only at htype hundivided ⊢
        rw [htype]
        by_cases heof : token'.type = .eof
        · rw [if_pos heof, if_pos heof]
          exact ⟨rfl, rfl⟩
        · rw [if_neg heof, ← List.append_assoc] at hundivided
          rw [if_neg heof, if_neg heof]
          obtain ⟨htokens, hending⟩ := ih (hsettled rfl) hundivided
          refine ⟨?_, hending⟩
          rw [List.map_cons, List.map_cons, htokens]
          exact congrArg (· :: _) hview
    · next hr hr' =>
      rw [hr, hr']
      exact ⟨rfl, rfl⟩
    · exact hlex.elim

theorem oneBuffer_flatten (file : List UInt8) : (oneBuffer file).flatten = file := by
  unfold oneBuffer
  split
  · next hfile => rw [hfile]; rfl
  · exact List.append_nil file

/-- **The tokens do not depend on the buffer**, as long as no chunk ends in or behind white space that
`PeekChar` skips before a token. -/
theorem tokenStream_eq_oneBuffer (h : Host) (fuel n : Nat) {chunks : List (List UInt8)}
    (hchunks : ∀ chunk ∈ chunks, chunk ≠ [])
    (hundivided : AllUndivided (chunkEnds 0 chunks) chunks.flatten.length
      (lexAll h fuel n { src := oneBuffer chunks.flatten }).2.2) :
    tokenStream h fuel n chunks = tokenStream h fuel n (oneBuffer chunks.flatten) := by
  have hbehind : Lexer.Behind (chunkEnds 0 chunks) chunks.flatten.length []
      { src := chunks } { src := oneBuffer chunks.flatten } := by
    refine ⟨?_, by simp, ?_, hchunks, Nat.zero_le _, ?_, ?_⟩
    · show chunks.flatten = (oneBuffer chunks.flatten).flatten
      rw [oneBuffer_flatten]
    · unfold oneBuffer
      split
      · exact .inl rfl
      · next hfile => exact .inr ⟨rfl, _, hfile, rfl⟩
    · intro e he hlt
      rcases List.mem_cons.mp he with rfl | he
      · exact absurd hlt (by simp)
      · exact he
    · show 0 + (oneBuffer chunks.flatten).flatten.length = chunks.flatten.length
      rw [oneBuffer_flatten, Nat.zero_add]
  obtain ⟨htokens, hending⟩ := lexAll_sim n (l := []) (.inl hbehind) hundivided
  rw [tokenStream, htokens, hending, tokenStream]

/-- A literal, a number and a string that are cut, and white space that is cut after a number. -/
theorem tokenStream_of_cut_tokens :
    tokenStream {} 12 12 [bytes "a", bytes "b=1", bytes "2 ", bytes ";\"x", bytes "y\""] =
      tokenStream {} 12 12 (oneBuffer (bytes "ab=12 ;\"xy\"")) :=
  tokenStream_eq_oneBuffer {} 12 12 (by decide) (by decide +kernel)

/-- Behind a comma, the white space ends with the buffer: `x` is taken for the end of the file. -/
theorem token_lost_behind_space :
    ¬ ∀ (h : Host) (fuel n : Nat) (chunks : List (List UInt8)),
      (∀ chunk ∈ chunks, chunk ≠ [] ∧ eof ∉ chunk) →
        tokenStream h fuel n chunks = tokenStream h fuel n (oneBuffer chunks.flatten) := by
  intro hall
  have heq := hall {} 5 5 [bytes ", ", bytes "x"] (by decide)
  exact absurd heq (by decide +kernel)

end HcGen
