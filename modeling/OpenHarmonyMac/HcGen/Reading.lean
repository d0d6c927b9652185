import OpenHarmonyMac.HcGen.Buffering

/-!
# What the readers take of a file

`GetChar` depends on the text only; `PeekChar` may depend on where the chunks of the file end.

* `Lexer.Reads`, `Lexer.ReadsAhead` — a reader takes the lexer from one place to another, and
  reports no error
* `Lexer.getChar_reads`, `Lexer.peekChar_false_ahead` — `GetChar` and `PeekChar`
* `Lexer.collect_ahead` — the loops that collect a token
-/

namespace HcGen

open Infra Infra.Program

/-- Everything but an error. -/
def Event.Fine : Event → Prop
  | .error _ _ _ => False
  | _ => True

/-- The bytes of a chunk, each with whether it is the last one. -/
def marked : List UInt8 → List (UInt8 × Bool)
  | [] => []
  | c :: chunk => (c, chunk.isEmpty) :: marked chunk

namespace Lexer

/-- What has not been taken of the file, with the ends of its chunks. -/
def stream (s : Lexer) : List (UInt8 × Bool) := marked s.buffer ++ (s.src.map marked).flatten

/-- The lexer has this before it. -/
structure Ahead (s : Lexer) (stream : List (UInt8 × Bool)) : Prop where
  stream : s.stream = stream
  nonempty : ∀ chunk ∈ s.src, chunk ≠ []

/-- The lexer has this text before it. -/
structure Before (s : Lexer) (text : List UInt8) : Prop where
  rest : s.rest = text
  nonempty : ∀ chunk ∈ s.src, chunk ≠ []

/-- From `stream`, the reader has the result `a` with `stream'` before it, and reports no error. -/
abbrev ReadsAhead {α : Type} (m : LexM α) (stream : List (UInt8 × Bool)) (a : α)
    (stream' : List (UInt8 × Bool)) : Prop :=
  Yields Ahead Event.Fine m stream a stream'

/-- From `text`, the reader has the result `a` with `text'` before it, and reports no error. -/
abbrev Reads {α : Type} (m : LexM α) (text : List UInt8) (a : α) (text' : List UInt8) : Prop :=
  Yields Before Event.Fine m text a text'

variable {h : Host} {fuel : Nat} {s : Lexer} {text text' : List UInt8} {c : UInt8} {last : Bool}
  {stream : List (UInt8 × Bool)}

theorem marked_map_fst (chunk : List UInt8) : (marked chunk).map Prod.fst = chunk := by
  induction chunk with
  | nil => rfl
  | cons c chunk ih => rw [marked, List.map_cons, ih]

theorem stream_map_fst (s : Lexer) : s.stream.map Prod.fst = s.rest := by
  have hsrc : (s.src.map marked).map (List.map Prod.fst) = s.src := by
    rw [List.map_map]
    exact List.map_id'' (fun chunk => marked_map_fst chunk) s.src
  rw [Lexer.stream, List.map_append, List.map_flatten, hsrc, marked_map_fst, Lexer.rest]

/-- Only the buffer and the reads to come matter. -/
theorem stream_congr {t : Lexer} (ht : t.buffer = s.buffer ∧ t.src = s.src) :
    t.stream = s.stream := by
  rw [Lexer.stream, Lexer.stream, ht.1, ht.2]

theorem filled_stream (s : Lexer) : s.filled.stream = s.stream := by
  unfold filled
  split
  · next hbuffer hsrc =>
    rw [Lexer.stream, Lexer.stream, hbuffer, hsrc]
    rfl
  · rfl

theorem Ahead.congr {t : Lexer} (hs : s.Ahead stream)
    (ht : t.buffer = s.buffer ∧ t.src = s.src) : t.Ahead stream where
  stream := by rw [stream_congr ht, hs.stream]
  nonempty := by rw [ht.2]; exact hs.nonempty

theorem Before.congr {t : Lexer} (hs : s.Before text)
    (ht : t.buffer = s.buffer ∧ t.src = s.src) : t.Before text where
  rest := by rw [Lexer.rest, ht.1, ht.2, ← Lexer.rest, hs.rest]
  nonempty := by rw [ht.2]; exact hs.nonempty

theorem Ahead.filled (hs : s.Ahead stream) : s.filled.Ahead stream where
  stream := by rw [filled_stream, hs.stream]
  nonempty chunk hchunk := hs.nonempty chunk (filled_src s chunk hchunk)

theorem Ahead.buffer_nil (hs : s.Ahead []) : s.filled.buffer = [] := by
  rw [filled_buffer_eq_nil hs.nonempty, ← stream_map_fst, hs.stream]
  rfl

/-- After `FillBuffer` what is ahead begins in the buffer. -/
theorem Ahead.buffer_cons (hs : s.Ahead ((c, last) :: stream)) :
    ∃ buffer, s.filled.buffer = c :: buffer ∧ last = buffer.isEmpty ∧
      marked buffer ++ (s.filled.src.map marked).flatten = stream := by
  have hstream := hs.filled.stream
  cases hbuffer : s.filled.buffer with
  | nil =>
    have hnil := (filled_buffer_eq_nil hs.nonempty).mp hbuffer
    rw [← stream_map_fst, hs.stream] at hnil
    cases hnil
  | cons d buffer =>
    rw [Lexer.stream, hbuffer, marked, List.cons_append] at hstream
    obtain ⟨hhead, htail⟩ := List.cons.inj hstream
    obtain ⟨rfl, rfl⟩ := Prod.mk.inj hhead
    exact ⟨buffer, rfl, rfl, htail⟩

/-- A reader may tell the ends of the chunks, as long as they make no difference. -/
theorem Reads.of_ahead {α : Type} {m : LexM α} {a : α}
    (hm : ∀ stream : List (UInt8 × Bool), stream.map Prod.fst = text →
      ∃ stream' : List (UInt8 × Bool), stream'.map Prod.fst = text' ∧
        ReadsAhead m stream a stream') : Reads m text a text' := by
  intro s hs
  obtain ⟨stream', htext', hread⟩ := hm s.stream ((stream_map_fst s).trans hs.rest)
  obtain ⟨hresult, hahead, hfine⟩ := hread s ⟨rfl, hs.nonempty⟩
  refine ⟨hresult, ⟨?_, hahead.nonempty⟩, hfine⟩
  rw [← stream_map_fst, hahead.stream, htext']

/-! ## Characters -/

theorem getRawChar_ahead_nil : ReadsAhead getRawChar [] eof [] := by
  intro s hs
  rw [getRawChar_apply, hs.buffer_nil]
  exact ⟨rfl, hs.filled, by simp⟩

theorem getRawChar_ahead_cons : ReadsAhead getRawChar ((c, last) :: stream) c stream := by
  intro s hs
  obtain ⟨buffer, hbuffer, -, hstream⟩ := hs.buffer_cons
  rw [getRawChar_apply, hbuffer]
  exact ⟨rfl, ⟨hstream, hs.filled.nonempty⟩, by simp [Event.Fine]⟩

theorem getRawChar_reads_nil : Reads getRawChar [] eof [] := by
  refine Reads.of_ahead fun stream hstream => ⟨[], rfl, ?_⟩
  rw [List.map_eq_nil_iff.mp hstream]
  exact getRawChar_ahead_nil

theorem getRawChar_reads_cons : Reads getRawChar (c :: text) c text := by
  refine Reads.of_ahead fun stream hstream => ?_
  obtain ⟨⟨c, last⟩, stream', rfl, rfl, htext⟩ := List.map_eq_cons_iff.mp hstream
  exact ⟨stream', htext, getRawChar_ahead_cons⟩

theorem skipSpaces_stop (hc : isSpace c = false) (n : Nat) :
    Reads (skipSpaces (n + 1) c) text c text := by
  refine Yields.loop ?_
  rw [if_neg (by simp [hc])]
  exact Yields.pure _ _

/-- The loop of `GetChar` goes on behind the blanks. -/
theorem skipSpaces_reads (hfuel : text.length + 1 < fuel) (c : UInt8) :
    Reads (skipSpaces fuel c) text (((c :: text).dropWhile isSpace).headD eof)
      ((c :: text).dropWhile isSpace).tail := by
  obtain ⟨n, rfl⟩ := Nat.exists_eq_succ_of_ne_zero (Nat.ne_of_gt (Nat.zero_lt_of_lt hfuel))
  induction text generalizing n c with
  | nil =>
    obtain ⟨n, rfl⟩ := Nat.exists_eq_succ_of_ne_zero (Nat.ne_of_gt (Nat.lt_of_succ_lt_succ hfuel))
    by_cases hc : isSpace c = true
    · rw [List.dropWhile_cons_of_pos hc]
      refine Yields.ends_loop (y := []) ?_ closed_yields (skipSpaces_stop (by decide) n)
      rw [if_pos hc]
      exact getRawChar_reads_nil.map
    · rw [List.dropWhile_cons_of_neg hc]
      exact skipSpaces_stop (by simpa using hc) _
  | cons d text ih =>
    by_cases hc : isSpace c = true
    · rw [List.dropWhile_cons_of_pos hc]
      obtain ⟨n, rfl⟩ := Nat.exists_eq_succ_of_ne_zero
        (Nat.ne_of_gt (Nat.zero_lt_of_lt (Nat.lt_of_succ_lt_succ hfuel)))
      refine Yields.ends_loop (y := text) ?_ closed_yields (ih d n (Nat.lt_of_succ_lt_succ hfuel))
      rw [if_pos hc]
      exact getRawChar_reads_cons.map
    · rw [List.dropWhile_cons_of_neg hc]
      exact skipSpaces_stop (by simpa using hc) _

/-- The text without the blanks that `GetChar` skips. -/
def skipped (skipSpace : Bool) (text : List UInt8) : List UInt8 :=
  if skipSpace then text.dropWhile isSpace else text

theorem length_skipped_le (skipSpace : Bool) (text : List UInt8) :
    (skipped skipSpace text).length ≤ text.length := by
  cases skipSpace with
  | false => exact Nat.le_refl _
  | true => exact List.length_dropWhile_le ..

/-- `GetChar`: at the end of the text it gives `EOF`. -/
theorem getChar_reads (skipSpace : Bool) (hfuel : text.length + 1 < fuel) :
    Reads (getChar h fuel skipSpace) text
      ((skipped skipSpace text).headD eof, !h.isEof ((skipped skipSpace text).headD eof))
      (skipped skipSpace text).tail := by
  have hcount : ∀ c text', Reads (update fun s : Lexer =>
      if c = byte '\n' then { s with lineno := s.lineno + 1, lineLoc := 0 } else s)
      text' () text' := by
    refine fun c text' => Yields.update fun s hs => ?_
    split
    · exact hs.congr ⟨rfl, rfl⟩
    · exact hs
  have hskip : ∀ chr text', text'.length + 1 < fuel →
      Reads (if skipSpace then skipSpaces fuel chr else pure chr) text'
        ((skipped skipSpace (chr :: text')).headD eof) (skipped skipSpace (chr :: text')).tail := by
    intro chr text' hfuel
    cases skipSpace with
    | false => exact Yields.pure _ _
    | true => exact skipSpaces_reads hfuel chr
  cases text with
  | nil =>
    refine getRawChar_reads_nil.bind ((hskip eof [] hfuel).bind ?_)
    cases skipSpace with
    | false => exact (hcount eof []).bind (Yields.pure _ _)
    | true => exact (hcount eof []).bind (Yields.pure _ _)
  | cons c text =>
    refine getRawChar_reads_cons.bind ((hskip c text (Nat.lt_of_succ_lt hfuel)).bind ?_)
    exact (hcount _ _).bind (Yields.pure _ _)

/-- `ConsumeChar` takes the next byte, whatever it is. -/
theorem consumeChar_reads (hfuel : text.length + 1 < fuel) :
    Reads (consumeChar h fuel) text () text.tail :=
  (getChar_reads false hfuel).bind (Yields.pure _ _)

/-- `GetChar` that skips nothing. -/
theorem getChar_ahead : ReadsAhead (getChar h fuel false) ((c, last) :: stream) (c, !h.isEof c)
    stream := by
  refine getRawChar_ahead_cons.bind ((Yields.pure _ _).bind ?_)
  refine Yields.bind (a := ()) (Yields.update fun s hs => ?_) (Yields.pure _ _)
  split
  · exact hs.congr ⟨rfl, rfl⟩
  · exact hs

theorem consumeChar_ahead : ReadsAhead (consumeChar h fuel) ((c, last) :: stream) () stream :=
  getChar_ahead.bind (Yields.pure _ _)

/-! ## Looking ahead -/

/-- What `PeekChar` finds behind blanks, and what is ahead then. It finds nothing where the chunk
ends with a blank. -/
def peeked : List (UInt8 × Bool) → Option UInt8 × List (UInt8 × Bool)
  | [] => (none, [])
  | (c, last) :: stream =>
    if isBlank c then if last then (none, stream) else peeked stream
    else (some c, (c, last) :: stream)

theorem peeked_marked {chunk : List UInt8} (hchunk : chunk ≠ []) (stream : List (UInt8 × Bool)) :
    peeked (marked chunk ++ stream) =
      ((chunk.dropWhile isBlank).head?, marked (chunk.dropWhile isBlank) ++ stream) := by
  induction chunk with
  | nil => exact absurd rfl hchunk
  | cons c chunk ih =>
    rw [marked, List.cons_append, peeked]
    by_cases hc : isBlank c = true
    · rw [if_pos hc, List.dropWhile_cons_of_pos hc]
      cases chunk with
      | nil => rfl
      | cons d chunk => exact ih (by simp)
    · rw [if_neg hc, List.dropWhile_cons_of_neg hc]
      rfl

theorem peeked_of_clear (hclear : (stream.map Prod.fst).head?.any isBlank = false) :
    peeked stream = ((stream.map Prod.fst).head?, stream) := by
  cases stream with
  | nil => rfl
  | cons x stream =>
    have hx : isBlank x.1 = false := hclear
    rw [peeked, if_neg (by simp [hx])]
    rfl

/-- What is found is ahead. -/
theorem peeked_found (stream : List (UInt8 × Bool)) : ∀ c, (peeked stream).1 = some c →
    ∃ last stream', (peeked stream).2 = (c, last) :: stream' := by
  induction stream with
  | nil => simp [peeked]
  | cons x stream ih =>
    intro c hc
    rw [peeked] at hc ⊢
    split at hc
    · next hblank =>
      rw [if_pos hblank]
      split at hc
      · cases hc
      · next hlast =>
        rw [if_neg hlast]
        exact ih c hc
    · next hblank =>
      rw [if_neg hblank]
      cases hc
      exact ⟨_, _, rfl⟩

theorem length_peeked_le (stream : List (UInt8 × Bool)) :
    (peeked stream).2.length ≤ stream.length := by
  induction stream with
  | nil => exact Nat.le_refl _
  | cons x stream ih =>
    rw [peeked]
    split
    · split
      · exact Nat.le_succ _
      · exact Nat.le_succ_of_le ih
    · exact Nat.le_refl _

theorem length_peeked_lt (hblank : (stream.map Prod.fst).head?.any isBlank = true) :
    (peeked stream).2.length < stream.length := by
  cases stream with
  | nil => cases hblank
  | cons x stream =>
    have hx : isBlank x.1 = true := hblank
    rw [peeked, if_pos hx]
    split
    · exact Nat.lt_succ_self _
    · exact Nat.lt_succ_of_le (length_peeked_le stream)

theorem peekChar_false_ahead (stream : List (UInt8 × Bool)) :
    ReadsAhead (peekChar false) stream (stream.head?.map Prod.fst) stream := by
  intro s hs
  rw [peekChar_false_apply]
  refine ⟨congrArg some ?_, hs.filled, by simp⟩
  cases stream with
  | nil => rw [hs.buffer_nil]; rfl
  | cons x stream =>
    obtain ⟨buffer, hbuffer, -⟩ := hs.buffer_cons
    rw [hbuffer]
    rfl

theorem peekChar_true_ahead (stream : List (UInt8 × Bool)) :
    ReadsAhead (peekChar true) stream (peeked stream).1 (peeked stream).2 := by
  intro s hs
  rw [peekChar_true_apply]
  have hstream := hs.filled.stream
  by_cases hbuffer : s.filled.buffer = []
  · have hnil : s.rest = [] := (filled_buffer_eq_nil hs.nonempty).mp hbuffer
    rw [← stream_map_fst, hs.stream, List.map_eq_nil_iff] at hnil
    subst hnil
    rw [if_pos hbuffer]
    exact ⟨rfl, hs.filled, by simp⟩
  · obtain ⟨hskipped, hsrc, -⟩ := skipBlanks_spec s.filled.buffer s.filled
    rw [if_neg hbuffer, ← hstream, Lexer.stream, peeked_marked hbuffer]
    refine ⟨rfl, ⟨?_, ?_⟩, by simp [Event.Fine]⟩
    · rw [Lexer.stream, hskipped, hsrc]
    · rw [hsrc]
      exact hs.filled.nonempty

/-! ## Collecting -/

variable {skipSpace : Bool} {accept : UInt8 → Bool} {value : List UInt8} {n : Nat}

theorem collectStep_stops {stream' : List (UInt8 × Bool)} {found : Option UInt8}
    (hpeek : ReadsAhead (peekChar skipSpace) stream found stream')
    (hfound : ∀ c, found = some c → accept c = false) :
    ReadsAhead (collectStep h fuel skipSpace accept value) stream (.inr value) stream' := by
  refine hpeek.bind ?_
  cases found with
  | none => exact Yields.pure _ _
  | some c =>
    simp only [hfound c rfl]
    exact Yields.pure _ _

theorem collectStep_accepts {stream' : List (UInt8 × Bool)}
    (hpeek : ReadsAhead (peekChar skipSpace) stream (some c) ((c, last) :: stream'))
    (hc : accept c = true) :
    ReadsAhead (collectStep h fuel skipSpace accept value) stream (.inl (value ++ [c]))
      stream' := by
  refine hpeek.bind ?_
  simp only [hc]
  exact consumeChar_ahead.bind (Yields.pure _ _)

theorem map_fst_dropWhile (accept : UInt8 → Bool) (stream : List (UInt8 × Bool)) :
    (stream.dropWhile fun x => accept x.1).map Prod.fst =
      (stream.map Prod.fst).dropWhile accept := by
  rw [List.dropWhile_map]
  rfl

/-- All characters that are accepted, where no blanks are skipped. -/
theorem collect_ahead (hn : stream.length < n) (value : List UInt8) :
    ReadsAhead (loop (collectStep h fuel false accept) n value) stream
      (value ++ (stream.map Prod.fst).takeWhile accept)
      (stream.dropWhile fun x => accept x.1) := by
  induction n generalizing stream value with
  | zero => exact absurd hn (Nat.not_lt_zero _)
  | succ n ih =>
    have hpeek := peekChar_false_ahead stream
    cases stream with
    | nil =>
      rw [List.map_nil, List.takeWhile_nil, List.append_nil]
      exact (collectStep_stops hpeek (by simp)).loop
    | cons x stream =>
      rw [List.map_cons, List.dropWhile_cons]
      by_cases hx : accept x.1 = true
      · rw [List.takeWhile_cons_of_pos hx, if_pos hx, List.append_cons]
        refine Yields.ends_loop (collectStep_accepts hpeek hx) closed_yields ?_
        exact ih (Nat.lt_of_succ_lt_succ hn) _
      · rw [List.takeWhile_cons_of_neg hx, if_neg hx, List.append_nil]
        exact (collectStep_stops hpeek (by simpa using hx)).loop

/-- The characters that are accepted where blanks in front of them are skipped, and what is ahead
then. -/
def collected (accept : UInt8 → Bool) :
    List (UInt8 × Bool) → List UInt8 × List (UInt8 × Bool)
  | [] => ([], [])
  | (c, last) :: stream =>
    if isBlank c then if last then ([], stream) else collected accept stream
    else if accept c then (c :: (collected accept stream).1, (collected accept stream).2)
    else ([], (c, last) :: stream)

/-- `PeekChar` finds what is collected next. -/
theorem collected_peeked (accept : UInt8 → Bool) (stream : List (UInt8 × Bool)) :
    (∃ c last stream', peeked stream = (some c, (c, last) :: stream') ∧ accept c = true ∧
        stream'.length < stream.length ∧ collected accept stream =
          (c :: (collected accept stream').1, (collected accept stream').2)) ∨
      (∀ c, (peeked stream).1 = some c → accept c = false) ∧
        collected accept stream = ([], (peeked stream).2) := by
  induction stream with
  | nil => exact .inr ⟨by simp [peeked], rfl⟩
  | cons x stream ih =>
    obtain ⟨c, last⟩ := x
    rw [collected, peeked]
    by_cases hblank : isBlank c = true
    · rw [if_pos hblank, if_pos hblank]
      cases last with
      | true => exact .inr ⟨by simp, rfl⟩
      | false =>
        refine ih.imp_left ?_
        rintro ⟨d, last, stream', hpeeked, hd, hlt, hcollected⟩
        exact ⟨d, last, stream', hpeeked, hd, Nat.lt_succ_of_lt hlt, hcollected⟩
    · rw [if_neg hblank, if_neg hblank]
      by_cases hc : accept c = true
      · rw [if_pos hc]
        exact .inl ⟨c, last, stream, rfl, hc, Nat.lt_succ_self _, rfl⟩
      · rw [if_neg hc]
        refine .inr ⟨fun d hd => ?_, rfl⟩
        obtain rfl := Option.some.inj hd
        simpa using hc

theorem collect_skipping_ahead (hn : stream.length < n) (value : List UInt8) :
    ReadsAhead (loop (collectStep h fuel true accept) n value) stream
      (value ++ (collected accept stream).1) (collected accept stream).2 := by
  induction n generalizing stream value with
  | zero => exact absurd hn (Nat.not_lt_zero _)
  | succ n ih =>
    have hpeek := peekChar_true_ahead stream
    rcases collected_peeked accept stream with
      ⟨c, last, stream', hpeeked, hc, hlt, hcollected⟩ | ⟨hstop, hcollected⟩
    · rw [hpeeked] at hpeek
      rw [hcollected, List.append_cons]
      refine Yields.ends_loop (collectStep_accepts hpeek hc) closed_yields ?_
      exact ih (by omega) _
    · rw [hcollected, List.append_nil]
      exact (collectStep_stops hpeek hstop).loop

theorem length_collected_le (accept : UInt8 → Bool) (stream : List (UInt8 × Bool)) :
    (collected accept stream).2.length ≤ stream.length := by
  induction stream with
  | nil => exact Nat.le_refl _
  | cons x stream ih =>
    obtain ⟨c, last⟩ := x
    rw [collected]
    split
    · cases last with
      | true => exact Nat.le_succ _
      | false => exact Nat.le_succ_of_le ih
    · split
      · exact Nat.le_succ_of_le ih
      · exact Nat.le_refl _

theorem accept_of_mem_collected (hc : c ∈ (collected accept stream).1) : accept c = true := by
  induction stream with
  | nil => cases hc
  | cons x stream ih =>
    obtain ⟨d, last⟩ := x
    rw [collected] at hc
    split at hc
    · cases last with
      | true => cases hc
      | false => exact ih hc
    · split at hc
      · next hd =>
        rcases List.mem_cons.mp hc with rfl | hc
        · exact hd
        · exact ih hc
      · cases hc

/-- What is collected begins like the text. Only where a blank follows is there more to it. -/
theorem collected_spec (haccept : ∀ c, isBlank c = true → accept c = false)
    (stream : List (UInt8 × Bool)) : ∃ more,
    (collected accept stream).1 = (stream.map Prod.fst).takeWhile accept ++ more ∧
      if ((stream.map Prod.fst).dropWhile accept).head?.any isBlank then
        (collected accept stream).2.length < ((stream.map Prod.fst).dropWhile accept).length
      else more = [] ∧
        (collected accept stream).2.map Prod.fst = (stream.map Prod.fst).dropWhile accept := by
  induction stream with
  | nil => exact ⟨[], rfl, rfl, rfl⟩
  | cons x stream ih =>
    obtain ⟨c, last⟩ := x
    rw [collected, List.map_cons]
    by_cases hblank : isBlank c = true
    · rw [List.takeWhile_cons_of_neg (by simp [haccept c hblank]),
        List.dropWhile_cons_of_neg (by simp [haccept c hblank]), if_pos hblank]
      have hle := length_collected_le accept stream
      refine ⟨_, (List.nil_append _).symm, ?_⟩
      show if isBlank c = true then _ else _
      rw [if_pos hblank, List.length_cons, List.length_map]
      cases last with
      | true => exact Nat.lt_succ_self _
      | false => exact Nat.lt_succ_of_le hle
    · rw [if_neg hblank]
      by_cases hc : accept c = true
      · obtain ⟨more, hdigits, hrest⟩ := ih
        rw [if_pos hc, List.takeWhile_cons_of_pos hc, List.dropWhile_cons_of_pos hc]
        exact ⟨more, congrArg (c :: ·) hdigits, hrest⟩
      · rw [if_neg hc, List.takeWhile_cons_of_neg hc, List.dropWhile_cons_of_neg hc]
        refine ⟨[], rfl, ?_⟩
        show if isBlank c = true then _ else _
        rw [if_neg hblank]
        exact ⟨rfl, rfl⟩

end Lexer

end HcGen
