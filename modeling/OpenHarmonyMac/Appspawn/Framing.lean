import OpenHarmonyMac.Infra.Blocks
import OpenHarmonyMac.Appspawn.Receive

/-!
# Message framing

A connection receives the concatenation of well-formed messages in arbitrary buffers. Each
message should reach `ProcessRecvMsg` once, in order, with its own bytes.

Three things of `OnReceiveRequest` are in the way. It advances `currLen` by `buffLen - reminder`,
which is the new offset itself and not the distance to it: the first advance starts from 0 and is
right, the second one counts the first message twice. It compares `msgRecvLen` with a `msgLen`
that may not have been received yet. And its log line reads a word of the buffer, however little
is left of it.

* `Harmless` — what a buffer is like when none of the three matters
* `framed_iff_harmless` — framing holds exactly when every buffer is
-/

namespace Appspawn

open Infra

/-- What the receive loop relies on for the messages in `valid`.

`GetAppSpawnMsgFromBuffer` is given the part of the stream that starts in the middle of a
message (`pre` has been received, `rest` is missing). It consumes what the message still
needs, adds it to `msgRecvLen` and reports the rest of the range in `reminder`. The header
of a node tells the full length once the message is complete; nothing is said about what it
tells before. -/
structure MsgLib.Frames (lib : MsgLib) (check : AppSpawnMsg → Bool)
    (valid : List UInt8 → Prop) : Prop where
  nonempty : ∀ m, valid m → m ≠ []
  consumes : ∀ pre rest range, valid (pre ++ rest) → rest ≠ [] → range ≠ [] →
    (range <+: rest ∨ rest <+: range) →
    lib.getAppSpawnMsgFromBuffer range (if pre = [] then none else some pre) pre.length
      = .ok (pre ++ rest.take range.length) (pre.length + min range.length rest.length)
          (range.length - rest.length)
  msgLen_complete : ∀ m, valid m → (lib.view m).msgLen = m.length
  decodes : ∀ m, valid m → lib.decodeAppSpawnMsg m = 0
  admitted : ∀ m, valid m → check (lib.view m) = true

/-- The calls made for `buffers` framed the stream: `msgs` were handed over, and every buffer
was read from its first to its last byte. -/
structure Framed (buffers : List (List UInt8)) (calls : List Received)
    (msgs : List (List UInt8)) : Prop where
  handed : handedOver calls = msgs
  reads : List.Forall₂ (fun b r => ReadsOn b.length 0 r.rounds) buffers calls

theorem framed_nil : Framed [] [] [] := ⟨rfl, List.Forall₂.nil⟩

/-- A call contributes the messages that it handed over. -/
theorem framed_cons {b : List UInt8} {bs : List (List UInt8)} {r : Received} {rs : List Received}
    {later msgs : List (List UInt8)} (hm : r.handed ++ later = msgs) :
    Framed (b :: bs) (r :: rs) msgs ↔ ReadsOn b.length 0 r.rounds ∧ Framed bs rs later := by
  rw [← hm]
  constructor
  · rintro ⟨h1, h2⟩
    obtain ⟨hr, h2⟩ := List.forall₂_cons.mp h2
    rw [handedOver, List.flatMap_cons] at h1
    exact ⟨hr, List.append_cancel_left h1, h2⟩
  · rintro ⟨hr, h1, h2⟩
    refine ⟨?_, List.Forall₂.cons hr h2⟩
    rw [handedOver, List.flatMap_cons]
    exact congrArg (r.handed ++ ·) h1

variable {lib : MsgLib} {check : AppSpawnMsg → Bool} {valid : List UInt8 → Prop}
variable {buf : List UInt8} {beyond : Nat → List UInt8} {pre rest : List UInt8} {cur : Nat}

/-- `receiverCtx` when `pre` is what has been received of the current message. -/
def ctxOf (pre : List UInt8) : ReceiverCtx :=
  { incompleteMsg := if pre = [] then none else some pre, msgRecvLen := pre.length }

theorem ctxOf_of_ne (h : pre ≠ []) :
    ctxOf pre = { incompleteMsg := some pre, msgRecvLen := pre.length } := by
  rw [ctxOf, if_neg h]

/-! ## One round -/

variable {range : List UInt8}

/-- A range that ends before the message does is consumed whole. -/
theorem recvRound_inside (h : lib.Frames check valid) (hv : valid (pre ++ rest))
    (hr : rangeAt buf beyond cur = range) (hne : range ≠ []) (hp : range <+: rest)
    (hl : range.length < rest.length) :
    recvRound lib check buf beyond (ctxOf pre).incompleteMsg pre.length cur
      = { start := cur, avail := sub32 buf.length cur,
          piece := classify lib check (pre ++ range) (pre ++ range).length,
          msgRecvLen := (pre ++ range).length, reminder := 0 } := by
  have hrest : rest ≠ [] := by intro he; simp [he] at hl
  obtain ⟨tail, htail⟩ := hp
  have htake : rest.take range.length = range := by rw [← htail]; simp
  unfold recvRound
  rw [hr, show (ctxOf pre).incompleteMsg = if pre = [] then none else some pre from rfl,
    h.consumes pre rest _ hv hrest hne (Or.inl ⟨tail, htail⟩), htake,
    Nat.min_eq_left (Nat.le_of_lt hl), ← List.length_append,
    Nat.sub_eq_zero_of_le (Nat.le_of_lt hl)]

theorem classify_incomplete {m : List UInt8} (htold : (lib.view m).msgLen ≠ m.length) :
    classify lib check m m.length = .incomplete m := by
  unfold classify
  rw [if_pos (Ne.symm htold)]

/-- A node whose header tells the length received so far is taken for a complete message. -/
theorem classify_early (check : AppSpawnMsg → Bool) {m : List UInt8}
    (htold : (lib.view m).msgLen = m.length) :
    classify lib check m m.length = .refused m ∨ classify lib check m m.length = .undecoded m ∨
      classify lib check m m.length = .dispatched m := by
  unfold classify
  rw [if_neg (by simp [htold])]
  split
  · exact Or.inl rfl
  · split
    · exact Or.inr (Or.inl rfl)
    · exact Or.inr (Or.inr rfl)

/-- The connection is closed then, or the node is handed over. -/
theorem afterLoop_early (check : AppSpawnMsg → Bool) (ctx : ReceiverCtx) (front : List Round)
    {last : Round} {m : List UInt8} (htold : (lib.view m).msgLen = m.length)
    (hlast : last.piece = classify lib check m m.length) :
    (afterLoop ctx (front ++ [last])).closed = true ∧
        (afterLoop ctx (front ++ [last])).handed = front.flatMap (·.piece.handed) ∨
      (afterLoop ctx (front ++ [last])).closed = false ∧
        (afterLoop ctx (front ++ [last])).handed = front.flatMap (·.piece.handed) ++ [m] := by
  rw [Received.handed, afterLoop_rounds, List.flatMap_append, List.flatMap_singleton]
  unfold afterLoop
  rw [List.getLast?_concat]
  simp only
  rcases classify_early check htold with hc | hc | hc
  · rw [hlast, hc]
    exact Or.inl ⟨rfl, List.append_nil _⟩
  · rw [hlast, hc]
    exact Or.inl ⟨rfl, List.append_nil _⟩
  · rw [hlast, hc]
    exact Or.inr ⟨rfl, rfl⟩

/-- A range that reaches the end of the message completes and dispatches it. -/
theorem recvRound_dispatched (h : lib.Frames check valid) (hv : valid (pre ++ rest))
    (hrest : rest ≠ []) (hr : rangeAt buf beyond cur = range) (hp : rest <+: range) :
    recvRound lib check buf beyond (ctxOf pre).incompleteMsg pre.length cur
      = { start := cur, avail := sub32 buf.length cur, piece := .dispatched (pre ++ rest),
          msgRecvLen := (pre ++ rest).length, reminder := range.length - rest.length } := by
  have hle : rest.length ≤ range.length := hp.length_le
  have hne : range ≠ [] := by
    intro he
    rw [he] at hle
    exact hrest (List.length_eq_zero_iff.mp (Nat.le_zero.mp hle))
  unfold recvRound
  rw [hr, show (ctxOf pre).incompleteMsg = if pre = [] then none else some pre from rfl,
    h.consumes pre rest _ hv hrest hne (Or.inr hp), List.take_of_length_le hle,
    Nat.min_eq_right hle, ← List.length_append]
  simp only [classify]
  rw [if_neg (by rw [h.msgLen_complete _ hv]; simp), if_neg (by rw [h.admitted _ hv]; simp),
    if_neg (by rw [h.decodes _ hv]; simp)]

/-! ## The loop -/

theorem recvLoop_inside (h : lib.Frames check valid) (hv : valid (pre ++ rest))
    (hr : rangeAt buf beyond cur = range) (hne : range ≠ []) (hp : range <+: rest)
    (hl : range.length < rest.length) (fuel : Nat) :
    recvLoop lib check buf beyond (fuel + 1) (ctxOf pre).incompleteMsg pre.length cur
      = [{ start := cur, avail := sub32 buf.length cur,
           piece := classify lib check (pre ++ range) (pre ++ range).length,
           msgRecvLen := (pre ++ range).length, reminder := 0 }] := by
  rw [recvLoop, recvRound_inside h hv hr hne hp hl]
  simp only
  split <;> simp

theorem recvLoop_last (h : lib.Frames check valid) (hv : valid (pre ++ rest))
    (hrest : rest ≠ []) (hr : rangeAt buf beyond cur = rest) (fuel : Nat) :
    recvLoop lib check buf beyond (fuel + 1) (ctxOf pre).incompleteMsg pre.length cur
      = [{ start := cur, avail := sub32 buf.length cur, piece := .dispatched (pre ++ rest),
           msgRecvLen := (pre ++ rest).length, reminder := 0 }] := by
  rw [recvLoop, recvRound_dispatched h hv hrest hr List.prefix_rfl]
  simp

/-- More bytes behind the message: the loop goes round again at the advanced `currLen`. -/
theorem recvLoop_more (h : lib.Frames check valid) (hv : valid (pre ++ rest)) (hrest : rest ≠ [])
    (hr : rangeAt buf beyond cur = range) (hp : rest <+: range)
    (hl : rest.length < range.length) (fuel : Nat) :
    recvLoop lib check buf beyond (fuel + 1) (ctxOf pre).incompleteMsg pre.length cur
      = { start := cur, avail := sub32 buf.length cur, piece := .dispatched (pre ++ rest),
          msgRecvLen := (pre ++ rest).length, reminder := range.length - rest.length }
        :: recvLoop lib check buf beyond fuel (ctxOf []).incompleteMsg ([] : List UInt8).length
            (add32 cur (sub32 buf.length (range.length - rest.length))) := by
  rw [recvLoop, recvRound_dispatched h hv hrest hr hp]
  simp only
  rw [if_pos (by omega)]
  rfl

/-- The first round of a loop starts at `currLen`. -/
theorem recvLoop_start (lib : MsgLib) (check : AppSpawnMsg → Bool) (buf : List UInt8)
    (beyond : Nat → List UInt8) (fuel : Nat) (message : Option (List UInt8)) (n cur : Nat) :
    ∃ r rs, recvLoop lib check buf beyond (fuel + 1) message n cur = r :: rs ∧ r.start = cur := by
  have hs : (recvRound lib check buf beyond message n cur).start = cur := by
    unfold recvRound
    split <;> rfl
  rw [recvLoop]
  split
  · split
    · exact ⟨_, _, rfl, hs⟩
    · exact ⟨_, _, rfl, hs⟩
  · exact ⟨_, _, rfl, hs⟩

/-! ## One call -/

theorem rangeAt_zero (buf : List UInt8) (beyond : Nat → List UInt8) :
    rangeAt buf beyond 0 = buf := by simp [rangeAt]

theorem rangeAt_of_le (h : cur ≤ buf.length) : rangeAt buf beyond cur = buf.drop cur := by
  rw [rangeAt, if_pos h]

theorem sub32_buffer (h : buf.length < lib.maxMsgTotalLength) (hc : cur ≤ buf.length) :
    sub32 buf.length cur = buf.length - cur :=
  sub32_of_le (Nat.lt_of_lt_of_le h lib.maxMsgTotalLength_le) hc

theorem onReceiveRequest_of_lt (h : buf.length < lib.maxMsgTotalLength) (ctx : ReceiverCtx) :
    onReceiveRequest lib check beyond ctx buf
      = afterLoop ctx (recvLoop lib check buf beyond (buf.length + 1) ctx.incompleteMsg
          ctx.msgRecvLen 0) :=
  if_pos h

section Call

variable (beyond)

/-- The buffer ends inside the current message. -/
theorem call_inside (h : lib.Frames check valid) (hv : valid (pre ++ rest))
    (hmax : buf.length < lib.maxMsgTotalLength) (hne : buf ≠ []) (hp : buf <+: rest)
    (hl : buf.length < rest.length) :
    onReceiveRequest lib check beyond (ctxOf pre) buf
      = afterLoop (ctxOf pre)
          [{ start := 0, avail := buf.length,
             piece := classify lib check (pre ++ buf) (pre ++ buf).length,
             msgRecvLen := (pre ++ buf).length, reminder := 0 }] := by
  have hloop := recvLoop_inside h hv (rangeAt_zero buf beyond) hne hp hl buf.length
  rw [sub32_buffer hmax (Nat.zero_le _)] at hloop
  exact (onReceiveRequest_of_lt hmax _).trans (congrArg _ hloop)

theorem call_incomplete (h : lib.Frames check valid) (hv : valid (pre ++ rest))
    (hmax : buf.length < lib.maxMsgTotalLength) (hne : buf ≠ []) (hp : buf <+: rest)
    (hl : buf.length < rest.length)
    (htold : (lib.view (pre ++ buf)).msgLen ≠ (pre ++ buf).length) :
    ∃ r, onReceiveRequest lib check beyond (ctxOf pre) buf = r ∧ r.closed = false ∧
      r.ctx = ctxOf (pre ++ buf) ∧ r.handed = [] ∧
      (ReadsOn buf.length 0 r.rounds ↔ 4 ≤ buf.length) := by
  have hcall := call_inside beyond h hv hmax hne hp hl
  rw [classify_incomplete htold] at hcall
  refine ⟨_, hcall, rfl, ?_, rfl, ?_⟩
  · exact (ctxOf_of_ne (show pre ++ buf ≠ [] by simp [hne])).symm
  · simp [afterLoop, ReadsOn, Round.logEnd]

/-- The buffer ends where the header happens to tell the length received so far: the bytes are
handed over as a message, or the connection is closed. -/
theorem call_early (h : lib.Frames check valid) (hv : valid (pre ++ rest))
    (hmax : buf.length < lib.maxMsgTotalLength) (hne : buf ≠ []) (hp : buf <+: rest)
    (hl : buf.length < rest.length)
    (htold : (lib.view (pre ++ buf)).msgLen = (pre ++ buf).length) :
    ∃ r, onReceiveRequest lib check beyond (ctxOf pre) buf = r ∧
      (r.closed = true ∧ r.handed = [] ∨ r.closed = false ∧ r.handed = [] ++ [pre ++ buf]) := by
  exact ⟨_, call_inside beyond h hv hmax hne hp hl, afterLoop_early check _ [] htold rfl⟩

/-- The buffer ends where the current message does. -/
theorem call_last (h : lib.Frames check valid) (hv : valid (pre ++ rest)) (hrest : rest ≠ [])
    (hmax : buf.length < lib.maxMsgTotalLength) (he : buf = rest) :
    ∃ r, onReceiveRequest lib check beyond (ctxOf pre) buf = r ∧ r.closed = false ∧
      r.ctx = ctxOf [] ∧ r.handed = [pre ++ rest] ∧
      (ReadsOn buf.length 0 r.rounds ↔ 4 ≤ buf.length) := by
  have hloop := recvLoop_last h hv hrest ((rangeAt_zero buf beyond).trans he) buf.length
  rw [sub32_buffer hmax (Nat.zero_le _)] at hloop
  refine ⟨_, (onReceiveRequest_of_lt hmax _).trans (congrArg _ hloop), rfl, rfl, rfl, ?_⟩
  simp [afterLoop, ReadsOn, Round.logEnd]

/-- After the first message the loop stands at its end, with `n` more rounds to go. -/
theorem loop_second (h : lib.Frames check valid) (hv : valid (pre ++ rest)) (hrest : rest ≠ [])
    (hmax : buf.length < lib.maxMsgTotalLength) {tail : List UInt8} (hb : buf = rest ++ tail)
    (ht : tail ≠ []) (n : Nat) :
    recvLoop lib check buf beyond (n + 1) (ctxOf pre).incompleteMsg pre.length 0
      = { start := 0, avail := buf.length, piece := .dispatched (pre ++ rest),
          msgRecvLen := (pre ++ rest).length, reminder := tail.length }
        :: recvLoop lib check buf beyond n (ctxOf []).incompleteMsg ([] : List UInt8).length
            rest.length := by
  have hlen : buf.length = rest.length + tail.length := by rw [hb, List.length_append]
  have htpos : 0 < tail.length := List.length_pos_iff.mpr ht
  have hlt := Nat.lt_of_lt_of_le hmax lib.maxMsgTotalLength_le
  have hloop := recvLoop_more h hv hrest ((rangeAt_zero buf beyond).trans hb)
    (List.prefix_append _ _) (by simp [htpos]) n
  rw [← hb, sub32_buffer hmax (Nat.zero_le _),
    show buf.length - rest.length = tail.length by omega,
    sub32_buffer hmax (show tail.length ≤ buf.length by omega),
    show buf.length - tail.length = rest.length by omega,
    add32_of_lt (by omega), Nat.zero_add] at hloop
  exact hloop

/-- The buffer holds the end of one message and the beginning of the next. -/
theorem call_second_inside (h : lib.Frames check valid) (hv : valid (pre ++ rest))
    (hrest : rest ≠ []) (hmax : buf.length < lib.maxMsgTotalLength) {tail m : List UInt8}
    (hb : buf = rest ++ tail) (ht : tail ≠ []) (hm : valid m) (hp : tail <+: m)
    (hl : tail.length < m.length) :
    onReceiveRequest lib check beyond (ctxOf pre) buf
      = afterLoop (ctxOf pre)
          [{ start := 0, avail := buf.length, piece := .dispatched (pre ++ rest),
             msgRecvLen := (pre ++ rest).length, reminder := tail.length },
           { start := rest.length, avail := tail.length,
             piece := classify lib check tail tail.length,
             msgRecvLen := tail.length, reminder := 0 }] := by
  have hlen : buf.length = rest.length + tail.length := by rw [hb, List.length_append]
  have hrange : rangeAt buf beyond rest.length = tail := by
    rw [rangeAt_of_le (by omega), hb, List.drop_left]
  obtain ⟨n, hn⟩ : ∃ n, buf.length = n + 1 := ⟨buf.length - 1, by
    have := List.length_pos_iff.mpr ht
    omega⟩
  have hloop := loop_second beyond h hv hrest hmax hb ht (n + 1)
  rw [recvLoop_inside h (show valid ([] ++ m) from hm) hrange ht hp hl,
    sub32_buffer hmax (by omega), ← hn, show buf.length - rest.length = tail.length by omega]
    at hloop
  exact (onReceiveRequest_of_lt hmax _).trans (congrArg _ hloop)

theorem call_second_incomplete (h : lib.Frames check valid) (hv : valid (pre ++ rest))
    (hrest : rest ≠ []) (hmax : buf.length < lib.maxMsgTotalLength) {tail m : List UInt8}
    (hb : buf = rest ++ tail) (ht : tail ≠ []) (hm : valid m) (hp : tail <+: m)
    (hl : tail.length < m.length) (htold : (lib.view tail).msgLen ≠ tail.length) :
    ∃ r, onReceiveRequest lib check beyond (ctxOf pre) buf = r ∧ r.closed = false ∧
      r.ctx = ctxOf tail ∧ r.handed = [pre ++ rest] ∧
      (ReadsOn buf.length 0 r.rounds ↔ 4 ≤ tail.length) := by
  have hlen : buf.length = rest.length + tail.length := by rw [hb, List.length_append]
  have hcall := call_second_inside beyond h hv hrest hmax hb ht hm hp hl
  rw [classify_incomplete htold] at hcall
  refine ⟨_, hcall, rfl, ?_, rfl, ?_⟩
  · rw [ctxOf_of_ne ht]
    rfl
  · simp [afterLoop, ReadsOn, Round.logEnd, hlen]
    omega

theorem call_second_early (h : lib.Frames check valid) (hv : valid (pre ++ rest))
    (hrest : rest ≠ []) (hmax : buf.length < lib.maxMsgTotalLength) {tail m : List UInt8}
    (hb : buf = rest ++ tail) (ht : tail ≠ []) (hm : valid m) (hp : tail <+: m)
    (hl : tail.length < m.length) (htold : (lib.view tail).msgLen = tail.length) :
    ∃ r, onReceiveRequest lib check beyond (ctxOf pre) buf = r ∧
      (r.closed = true ∧ r.handed = [pre ++ rest] ∨
        r.closed = false ∧ r.handed = [pre ++ rest] ++ [tail]) := by
  exact ⟨_, call_second_inside beyond h hv hrest hmax hb ht hm hp hl,
    afterLoop_early check _ [_] htold rfl⟩

/-- The buffer holds the end of one message and the whole of what it has of the next. -/
theorem call_second_last (h : lib.Frames check valid) (hv : valid (pre ++ rest))
    (hrest : rest ≠ []) (hmax : buf.length < lib.maxMsgTotalLength) {m : List UInt8}
    (hb : buf = rest ++ m) (hm : valid m) :
    ∃ r, onReceiveRequest lib check beyond (ctxOf pre) buf = r ∧ r.closed = false ∧
      r.ctx = ctxOf [] ∧ r.handed = [pre ++ rest, m] ∧
      (ReadsOn buf.length 0 r.rounds ↔ 4 ≤ m.length) := by
  have hlen : buf.length = rest.length + m.length := by rw [hb, List.length_append]
  have ht : m ≠ [] := h.nonempty m hm
  have hrange : rangeAt buf beyond rest.length = m := by
    rw [rangeAt_of_le (by omega), hb, List.drop_left]
  obtain ⟨n, hn⟩ : ∃ n, buf.length = n + 1 := ⟨buf.length - 1, by
    have := List.length_pos_iff.mpr ht
    omega⟩
  have hloop := loop_second beyond h hv hrest hmax hb ht (n + 1)
  rw [recvLoop_last h (show valid ([] ++ m) from hm) ht hrange,
    sub32_buffer hmax (by omega), ← hn] at hloop
  refine ⟨_, (onReceiveRequest_of_lt hmax _).trans (congrArg _ hloop), rfl, rfl, rfl, ?_⟩
  simp [afterLoop, ReadsOn, Round.logEnd, hlen]
  omega

/-- **A third message is read from the wrong place.** With bytes behind the second message the
third round starts `rest.length` too far. -/
theorem call_third (h : lib.Frames check valid) (hv : valid (pre ++ rest)) (hrest : rest ≠ [])
    (hmax : buf.length < lib.maxMsgTotalLength) {m tail : List UInt8}
    (hb : buf = rest ++ (m ++ tail)) (hm : valid m) (ht : tail ≠ []) :
    ¬ ReadsOn buf.length 0 (onReceiveRequest lib check beyond (ctxOf pre) buf).rounds := by
  have hmne : m ≠ [] := h.nonempty m hm
  have hlen : buf.length = rest.length + (m.length + tail.length) := by
    rw [hb, List.length_append, List.length_append]
  have hrpos : 0 < rest.length := List.length_pos_iff.mpr hrest
  have hmpos : 0 < m.length := List.length_pos_iff.mpr hmne
  have htpos : 0 < tail.length := List.length_pos_iff.mpr ht
  have hlt := Nat.lt_of_lt_of_le hmax lib.maxMsgTotalLength_le
  have hrange : rangeAt buf beyond rest.length = m ++ tail := by
    rw [rangeAt_of_le (by omega), hb, List.drop_left]
  obtain ⟨n, hn⟩ : ∃ n, buf.length = n + 2 := ⟨buf.length - 2, by omega⟩
  have hloop := loop_second beyond h hv hrest hmax hb (by simp [ht]) (n + 2)
  rw [recvLoop_more h (show valid ([] ++ m) from hm) hmne hrange
    (List.prefix_append _ _) (by simp; omega), ← hn] at hloop
  -- the offset of the third round, and the length that is left to read there
  have hrem : (m ++ tail).length - m.length = tail.length := by simp
  rw [hrem, sub32_buffer hmax (show tail.length ≤ buf.length by omega)] at hloop
  have hne : add32 rest.length (buf.length - tail.length) ≠ buf.length - tail.length := by
    unfold add32
    omega
  obtain ⟨r, rs, hthird, hstart⟩ := recvLoop_start lib check buf beyond n
    (ctxOf []).incompleteMsg ([] : List UInt8).length
    (add32 rest.length (buf.length - tail.length))
  rw [onReceiveRequest_of_lt hmax, afterLoop_rounds, show (ctxOf pre).msgRecvLen = pre.length from rfl,
    hloop, hthird]
  rintro ⟨-, -, -, -, -, -, -, -, h3, -⟩
  exact hne (hstart ▸ h3)

end Call

/-! ## All calls -/

theorem receiveAll_cons {ctx ctx' : ReceiverCtx} {b : List UInt8} {bs : List (List UInt8)}
    {r : Received} (hr : onReceiveRequest lib check beyond ctx b = r) (hc : r.closed = false)
    (hctx : r.ctx = ctx') :
    receiveAll lib check beyond ctx (b :: bs) = r :: receiveAll lib check beyond ctx' bs := by
  rw [receiveAll, hr]
  simp only [hc, hctx, Bool.false_eq_true, if_false]

/-- Where the connection stands in the stream: `pre` has been received of the first message of
`todo`, and `left` is what the peer has still to send. -/
inductive At (pre : List UInt8) : List (List UInt8) → List UInt8 → Prop
  | done : pre = [] → At pre [] []
  | inside {rest : List UInt8} {later : List (List UInt8)} :
      rest ≠ [] → At pre ((pre ++ rest) :: later) (rest ++ later.flatten)

theorem At.start : ∀ {todo : List (List UInt8)}, (∀ m ∈ todo, m ≠ []) → At [] todo todo.flatten
  | [], _ => At.done rfl
  | m :: later, h => by
    have hin : At [] (([] ++ m) :: later) (m ++ later.flatten) := At.inside (h m (by simp))
    simpa using hin

/-- Two lists that begin the same stream: one of them begins the other. -/
theorem append_cases {α : Type*} {a b c d : List α} (h : a ++ b = c ++ d) :
    (∃ e, e ≠ [] ∧ c = a ++ e ∧ b = e ++ d) ∨ (a = c ∧ b = d) ∨
      (∃ e, e ≠ [] ∧ a = c ++ e ∧ d = e ++ b) := by
  rcases List.append_eq_append_iff.mp h with ⟨e, h1, h2⟩ | ⟨e, h1, h2⟩
  · rcases eq_or_ne e [] with rfl | he
    · exact Or.inr (Or.inl ⟨by simpa using h1.symm, by simpa using h2⟩)
    · exact Or.inl ⟨e, he, h1, h2⟩
  · rcases eq_or_ne e [] with rfl | he
    · exact Or.inr (Or.inl ⟨by simpa using h1, by simpa using h2.symm⟩)
    · exact Or.inr (Or.inr ⟨e, he, h1, h2⟩)

/-- A call that takes the beginning of a message for the whole of it. -/
theorem not_framed_of_early {ctx : ReceiverCtx} {b x m : List UInt8} {bs ms later : List (List UInt8)}
    {r : Received} (hx : x ≠ m) (hr : onReceiveRequest lib check beyond ctx b = r)
    (hh : r.closed = true ∧ r.handed = ms ∨ r.closed = false ∧ r.handed = ms ++ [x]) :
    ¬ Framed (b :: bs) (receiveAll lib check beyond ctx (b :: bs)) (ms ++ m :: later) := by
  rintro ⟨hhanded, -⟩
  rcases hh with ⟨hc, hh⟩ | ⟨hc, hh⟩
  · simp [receiveAll, hr, hc, handedOver, hh] at hhanded
  · rw [receiveAll_cons hr hc rfl, handedOver, List.flatMap_cons, hh, List.append_assoc] at hhanded
    exact hx (List.cons.inj (List.append_cancel_left hhanded)).1

/-! ## Which buffers do no harm -/

/-- What a buffer is like that goes from `p` to `q` in the stream of `msgs`, which starts at
`base`: it has bytes of two messages at most; it has a word where it begins, and where a message
begins in it; and if it ends inside a message, the header of what has been received of that
message does not tell just this length. -/
structure Harmless (lib : MsgLib) (base : Nat) (msgs : List (List UInt8)) (p q : Nat) : Prop where
  two : endsWithin (ends base msgs) p q ≤ 1
  word : ∀ s ∈ p :: ends base msgs, p ≤ s → s < q → s + 4 ≤ q
  told : ∀ x ∈ placed base msgs, x.1 < q → q < x.1 + x.2.length →
    (lib.view (x.2.take (q - x.1))).msgLen ≠ q - x.1

theorem harmless_iff (lib : MsgLib) (base : Nat) (msgs : List (List UInt8)) (p q : Nat) :
    Harmless lib base msgs p q ↔
      endsWithin (ends base msgs) p q ≤ 1 ∧
        (∀ s ∈ p :: ends base msgs, p ≤ s → s < q → s + 4 ≤ q) ∧
        ∀ x ∈ placed base msgs, x.1 < q → q < x.1 + x.2.length →
          (lib.view (x.2.take (q - x.1))).msgLen ≠ q - x.1 :=
  ⟨fun h => ⟨h.two, h.word, h.told⟩, fun h => ⟨h.1, h.2.1, h.2.2⟩⟩

instance (lib : MsgLib) (base : Nat) (msgs : List (List UInt8)) (p q : Nat) :
    Decidable (Harmless lib base msgs p q) :=
  decidable_of_iff _ (harmless_iff lib base msgs p q).symm

section Harmless

variable {base p q : Nat} {m n : List UInt8} {later : List (List UInt8)}

/-- A message that is already past does not matter to the buffers to come. -/
theorem harmless_past (hpast : base + m.length ≤ p) (hq : p ≤ q) :
    Harmless lib base (m :: later) p q ↔ Harmless lib (base + m.length) later p q := by
  rw [harmless_iff, harmless_iff, ends, placed, endsWithin_cons_le hpast]
  refine and_congr Iff.rfl (and_congr ⟨fun h s hs => ?_, fun h s hs hps hsq => ?_⟩
    ⟨fun h x hx => h x (List.mem_cons_of_mem _ hx), fun h x hx hxq hqx => ?_⟩)
  · refine h s ?_
    rcases List.mem_cons.mp hs with rfl | hs
    · exact List.mem_cons_self
    · exact List.mem_cons_of_mem _ (List.mem_cons_of_mem _ hs)
  · rcases List.mem_cons.mp hs with rfl | hs
    · exact h s List.mem_cons_self hps hsq
    · rcases List.mem_cons.mp hs with rfl | hs
      · have := h p List.mem_cons_self (Nat.le_refl _) (by omega)
        omega
      · exact h s (List.mem_cons_of_mem _ hs) hps hsq
  · rcases List.mem_cons.mp hx with rfl | hx
    · simp only at hqx
      omega
    · exact h x hx hxq hqx

theorem eachBuffer_harmless_past (hpast : base + m.length ≤ p) (bs : List (List UInt8)) :
    EachBuffer (Harmless lib base (m :: later)) p bs ↔
      EachBuffer (Harmless lib (base + m.length) later) p bs :=
  eachBuffer_congr (fun _ _ hp hq => harmless_past (Nat.le_trans hpast hp) hq) bs

/-- No other start lies before the end of the message. -/
theorem eq_of_mem_starts (hq : q ≤ base + m.length) {s : Nat}
    (hs : s ∈ p :: ends base (m :: later)) (hsq : s < q) : s = p := by
  rcases List.mem_cons.mp hs with rfl | hs
  · rfl
  · rcases List.mem_cons.mp hs with rfl | hs
    · omega
    · have := le_of_mem_ends hs
      omega

theorem eq_of_mem_placed (hq : q ≤ base + m.length) {x : Nat × List UInt8}
    (hx : x ∈ placed base (m :: later)) (hxq : x.1 < q) : x = (base, m) := by
  rcases List.mem_cons.mp hx with rfl | hx
  · rfl
  · have := le_of_mem_placed hx
    omega

/-- The buffer ends inside the message. -/
theorem harmless_inside (hp : base ≤ p) (hpq : p < q) (hq : q < base + m.length) :
    Harmless lib base (m :: later) p q ↔
      p + 4 ≤ q ∧ (lib.view (m.take (q - base))).msgLen ≠ q - base := by
  rw [harmless_iff, ends, placed, endsWithin_cons_ge (by omega), endsWithin_ends_of_le (by omega)]
  constructor
  · rintro ⟨-, hword, htold⟩
    exact ⟨hword p List.mem_cons_self (Nat.le_refl _) hpq,
      htold (base, m) List.mem_cons_self (by simp only; omega) hq⟩
  · rintro ⟨hword, htold⟩
    refine ⟨by omega, fun s hs _ hsq => ?_, fun x hx hxq _ => ?_⟩
    · rw [eq_of_mem_starts (Nat.le_of_lt hq) hs hsq]
      exact hword
    · rw [eq_of_mem_placed (Nat.le_of_lt hq) hx hxq]
      exact htold

/-- The buffer ends where the message does. -/
theorem harmless_end (hpq : p < q) (hq : q = base + m.length) :
    Harmless lib base (m :: later) p q ↔ p + 4 ≤ q := by
  rw [harmless_iff, ends, placed, endsWithin_cons_ge (by omega), endsWithin_ends_of_le (by omega)]
  constructor
  · rintro ⟨-, hword, -⟩
    exact hword p List.mem_cons_self (Nat.le_refl _) hpq
  · intro hword
    refine ⟨by omega, fun s hs _ hsq => ?_, fun x hx hxq hqx => ?_⟩
    · rw [eq_of_mem_starts (Nat.le_of_eq hq) hs hsq]
      exact hword
    · rw [eq_of_mem_placed (Nat.le_of_eq hq) hx hxq] at hqx
      exact absurd hqx (Nat.not_lt.mpr (Nat.le_of_eq hq.symm))

/-- A message ends in the buffer, and the buffer does not go beyond the next one. -/
theorem harmless_second (hpe : p < base + m.length) (heq : base + m.length < q)
    (hq : q ≤ base + m.length + n.length) :
    Harmless lib base (m :: n :: later) p q ↔
      Harmless lib (base + m.length) (n :: later) (base + m.length) q := by
  rw [harmless_iff, harmless_iff, ends, placed, endsWithin_cons_in hpe heq, ends,
    endsWithin_cons_ge hq, endsWithin_ends_of_le hq, endsWithin_cons_ge hq,
    endsWithin_ends_of_le hq]
  constructor
  · rintro ⟨-, hword, htold⟩
    refine ⟨by omega, fun s hs hs' => hword s (List.mem_cons_of_mem _ hs) (by omega),
      fun x hx => htold x (List.mem_cons_of_mem _ hx)⟩
  · rintro ⟨-, hword, htold⟩
    refine ⟨by omega, fun s hs hps hsq => ?_, fun x hx hxq hqx => ?_⟩
    · rcases List.mem_cons.mp hs with rfl | hs
      · have := hword _ List.mem_cons_self (Nat.le_refl _) heq
        omega
      · refine hword s hs ?_ hsq
        rcases List.mem_cons.mp hs with rfl | hs
        · exact Nat.le_refl _
        · have := le_of_mem_ends (show s ∈ ends (base + m.length) (n :: later) from hs)
          omega
    · rcases List.mem_cons.mp hx with rfl | hx
      · simp only at hqx
        omega
      · exact htold x hx hxq hqx

/-- Two messages end in the buffer, and it goes on. -/
theorem not_harmless_third (hpe : p < base + m.length) (hn : 0 < n.length)
    (hq : base + m.length + n.length < q) : ¬ Harmless lib base (m :: n :: later) p q := by
  intro h
  have htwo := h.two
  rw [ends, endsWithin_cons_in hpe (by omega), ends, endsWithin_cons_in (by omega) hq] at htwo
  omega

end Harmless

/-! ## One buffer, by where it ends -/

/-- Framing from any position of the stream, when `pre` has been received of the first message of
`todo`, which starts at `base`. -/
def FramesFrom (lib : MsgLib) (check : AppSpawnMsg → Bool) (beyond : Nat → List UInt8)
    (pre : List UInt8) (todo : List (List UInt8)) (base : Nat) (buffers : List (List UInt8)) : Prop :=
  Framed buffers (receiveAll lib check beyond (ctxOf pre) buffers) todo ↔
    EachBuffer (Harmless lib base todo) (base + pre.length) buffers

section Buffer

variable {b e m tail : List UInt8} {bs later : List (List UInt8)} {base : Nat}

/-- Inside the message. -/
theorem framesFrom_inside (h : lib.Frames check valid) (hv : valid (pre ++ rest))
    (hmax : b.length < lib.maxMsgTotalLength) (hb : b ≠ []) (hrest : rest = b ++ e) (he : e ≠ [])
    (ih : FramesFrom lib check beyond (pre ++ b) ((pre ++ rest) :: later) base bs) :
    FramesFrom lib check beyond pre ((pre ++ rest) :: later) base (b :: bs) := by
  unfold FramesFrom at ih ⊢
  have hbpos := List.length_pos_iff.mpr hb
  have hl : b.length < rest.length := by
    rw [hrest, List.length_append]
    have := List.length_pos_iff.mpr he
    omega
  have htake : (pre ++ rest).take (pre.length + b.length) = pre ++ b := by
    rw [hrest, ← List.append_assoc, ← List.length_append, List.take_left]
  have hiff : Harmless lib base ((pre ++ rest) :: later) (base + pre.length)
        (base + pre.length + b.length) ↔
      4 ≤ b.length ∧ (lib.view (pre ++ b)).msgLen ≠ (pre ++ b).length := by
    rw [harmless_inside (by omega) (by omega) (by rw [List.length_append]; omega),
      show base + pre.length + b.length - base = pre.length + b.length by omega, htake,
      List.length_append]
    exact and_congr (by omega) Iff.rfl
  rw [EachBuffer, hiff]
  by_cases htold : (lib.view (pre ++ b)).msgLen = (pre ++ b).length
  · obtain ⟨r, hr, hh⟩ := call_early beyond h hv hmax hb ⟨e, hrest.symm⟩ hl htold
    have hx : pre ++ b ≠ pre ++ rest := by
      intro heq
      rw [List.append_cancel_left heq] at hl
      exact Nat.lt_irrefl _ hl
    exact iff_of_false (not_framed_of_early hx hr hh) fun hand => hand.1.2 htold
  · obtain ⟨r, hr, hc, hctx, hh, hreads⟩ := call_incomplete beyond h hv hmax hb ⟨e, hrest.symm⟩ hl htold
    have hpos : base + pre.length + b.length = base + (pre ++ b).length := by
      rw [List.length_append, Nat.add_assoc]
    rw [receiveAll_cons hr hc hctx,
      framed_cons (show r.handed ++ ((pre ++ rest) :: later) = _ by rw [hh]; rfl), hreads, ih, hpos]
    exact and_congr ⟨fun hw => ⟨hw, htold⟩, And.left⟩ Iff.rfl

/-- At the end of the message. -/
theorem framesFrom_end (h : lib.Frames check valid) (hv : valid (pre ++ rest)) (hrest : rest ≠ [])
    (hmax : b.length < lib.maxMsgTotalLength) (hb : b = rest)
    (ih : FramesFrom lib check beyond [] later (base + (pre ++ rest).length) bs) :
    FramesFrom lib check beyond pre ((pre ++ rest) :: later) base (b :: bs) := by
  unfold FramesFrom at ih ⊢
  have hpos := List.length_pos_iff.mpr hrest
  have hq : base + pre.length + b.length = base + (pre ++ rest).length := by
    rw [hb, List.length_append]
    omega
  obtain ⟨r, hr, hc, hctx, hh, hreads⟩ := call_last beyond h hv hrest hmax hb
  rw [EachBuffer, harmless_end (by rw [hb]; omega) hq, receiveAll_cons hr hc hctx,
    framed_cons (show r.handed ++ later = _ by rw [hh]; rfl), hreads, ih, hq,
    eachBuffer_harmless_past (Nat.le_refl _)]
  exact and_congr (by rw [← hq]; omega) Iff.rfl

/-- Inside the next message. -/
theorem framesFrom_second_inside (h : lib.Frames check valid) (hv : valid (pre ++ rest))
    (hrest : rest ≠ []) (hmax : b.length < lib.maxMsgTotalLength) (hb : b = rest ++ tail)
    (ht : tail ≠ []) (hm : valid m) (hme : m = tail ++ e) (he : e ≠ [])
    (ih : FramesFrom lib check beyond tail (m :: later) (base + (pre ++ rest).length) bs) :
    FramesFrom lib check beyond pre ((pre ++ rest) :: m :: later) base (b :: bs) := by
  unfold FramesFrom at ih ⊢
  have hrpos : 0 < rest.length := List.length_pos_iff.mpr hrest
  have htpos : 0 < tail.length := List.length_pos_iff.mpr ht
  have hl : tail.length < m.length := by
    rw [hme, List.length_append]
    have := List.length_pos_iff.mpr he
    omega
  have hpr : (pre ++ rest).length = pre.length + rest.length := List.length_append
  have hq : base + pre.length + b.length = base + (pre ++ rest).length + tail.length := by
    rw [hb, hpr, List.length_append]
    omega
  have hiff : Harmless lib base ((pre ++ rest) :: m :: later) (base + pre.length)
        (base + pre.length + b.length) ↔
      4 ≤ tail.length ∧ (lib.view tail).msgLen ≠ tail.length := by
    rw [hq, harmless_second (by omega) (by omega) (by omega),
      harmless_inside (Nat.le_refl _) (by omega) (by omega), Nat.add_sub_cancel_left,
      show m.take tail.length = tail by rw [hme, List.take_left]]
    exact and_congr (by omega) Iff.rfl
  rw [EachBuffer, hiff]
  by_cases htold : (lib.view tail).msgLen = tail.length
  · obtain ⟨r, hr, hh⟩ :=
      call_second_early beyond h hv hrest hmax hb ht hm ⟨e, hme.symm⟩ hl htold
    have hx : tail ≠ m := by
      intro heq
      rw [← heq] at hl
      exact Nat.lt_irrefl _ hl
    exact iff_of_false (not_framed_of_early hx hr hh) fun hand => hand.1.2 htold
  · obtain ⟨r, hr, hc, hctx, hh, hreads⟩ :=
      call_second_incomplete beyond h hv hrest hmax hb ht hm ⟨e, hme.symm⟩ hl htold
    rw [receiveAll_cons hr hc hctx,
      framed_cons (show r.handed ++ (m :: later) = _ by rw [hh]; rfl), hreads, ih, hq, eachBuffer_harmless_past (Nat.le_add_right _ _)]
    exact and_congr ⟨fun hw => ⟨hw, htold⟩, And.left⟩ Iff.rfl

/-- At the end of the next message. -/
theorem framesFrom_second_end (h : lib.Frames check valid) (hv : valid (pre ++ rest))
    (hrest : rest ≠ []) (hmax : b.length < lib.maxMsgTotalLength) (hb : b = rest ++ m)
    (hm : valid m)
    (ih : FramesFrom lib check beyond [] later (base + (pre ++ rest).length + m.length) bs) :
    FramesFrom lib check beyond pre ((pre ++ rest) :: m :: later) base (b :: bs) := by
  unfold FramesFrom at ih ⊢
  have hrpos : 0 < rest.length := List.length_pos_iff.mpr hrest
  have hmpos : 0 < m.length := List.length_pos_iff.mpr (h.nonempty m hm)
  have hpr : (pre ++ rest).length = pre.length + rest.length := List.length_append
  have hq : base + pre.length + b.length = base + (pre ++ rest).length + m.length := by
    rw [hb, hpr, List.length_append]
    omega
  obtain ⟨r, hr, hc, hctx, hh, hreads⟩ := call_second_last beyond h hv hrest hmax hb hm
  rw [EachBuffer, hq, harmless_second (by omega) (by omega) (Nat.le_refl _),
    harmless_end (by omega) rfl, receiveAll_cons hr hc hctx,
    framed_cons (show r.handed ++ later = _ by rw [hh]; rfl), hreads, ih, eachBuffer_harmless_past (by omega), eachBuffer_harmless_past (Nat.le_refl _)]
  exact and_congr (by omega) Iff.rfl

/-- Behind the next message: two messages end in the buffer, and it goes on. -/
theorem framesFrom_third (h : lib.Frames check valid) (hv : valid (pre ++ rest)) (hrest : rest ≠ [])
    (hmax : b.length < lib.maxMsgTotalLength) (hb : b = rest ++ (m ++ e)) (hm : valid m)
    (he : e ≠ []) : FramesFrom lib check beyond pre ((pre ++ rest) :: m :: later) base (b :: bs) := by
  unfold FramesFrom
  have hrpos : 0 < rest.length := List.length_pos_iff.mpr hrest
  have hmpos : 0 < m.length := List.length_pos_iff.mpr (h.nonempty m hm)
  have hepos : 0 < e.length := List.length_pos_iff.mpr he
  have hpr : (pre ++ rest).length = pre.length + rest.length := List.length_append
  have hblen : b.length = rest.length + (m.length + e.length) := by
    rw [hb, List.length_append, List.length_append]
  rw [EachBuffer]
  refine iff_of_false ?_ fun hand => not_harmless_third (by omega) hmpos (by omega) hand.1
  rintro ⟨-, hreads⟩
  rw [receiveAll] at hreads
  exact call_third beyond h hv hrest hmax hb hm he (List.forall₂_cons.mp hreads).1

end Buffer

/-- **Framing from any position of the stream**, by induction on the buffers: the cases are
where the first buffer ends. -/
theorem framed_iff (h : lib.Frames check valid) :
    ∀ (buffers : List (List UInt8)) (pre : List UInt8) (todo : List (List UInt8))
      (left : List UInt8) (base : Nat), At pre todo left → (∀ m ∈ todo, valid m) →
      (∀ b ∈ buffers, b ≠ []) → (∀ b ∈ buffers, b.length < lib.maxMsgTotalLength) →
      buffers.flatten = left → FramesFrom lib check beyond pre todo base buffers := by
  intro buffers
  induction buffers with
  | nil =>
    intro pre todo left base hat _ _ _ hflat
    cases hat with
    | done _ => exact iff_of_true framed_nil trivial
    | inside hrest => simp [hrest] at hflat
  | cons b bs ih =>
    intro pre todo left base hat hvalid hne hmax hflat
    have hb : b ≠ [] := hne b List.mem_cons_self
    have hbmax : b.length < lib.maxMsgTotalLength := hmax b List.mem_cons_self
    have hne' : ∀ c ∈ bs, c ≠ [] := fun c hc => hne c (List.mem_cons_of_mem _ hc)
    have hmax' : ∀ c ∈ bs, c.length < lib.maxMsgTotalLength :=
      fun c hc => hmax c (List.mem_cons_of_mem _ hc)
    cases hat with
    | done _ => simp [hb] at hflat
    | @inside rest later hrest =>
      obtain ⟨hv, hlater⟩ := List.forall_mem_cons.mp hvalid
      rw [List.flatten_cons] at hflat
      rcases append_cases hflat with ⟨e, he, hre, hbs⟩ | ⟨hbr, hbs⟩ | ⟨tail, ht, hbt, hbs⟩
      · have hat' : At (pre ++ b) ((pre ++ rest) :: later) (e ++ later.flatten) := by
          rw [hre, ← List.append_assoc]
          exact At.inside he
        exact framesFrom_inside h hv hbmax hb hre he (ih _ _ _ base hat' hvalid hne' hmax' hbs)
      · have hat' := At.start fun m hm => h.nonempty m (hlater m hm)
        exact framesFrom_end h hv hrest hbmax hbr (ih _ _ _ _ hat' hlater hne' hmax' hbs)
      · cases later with
        | nil => simp at hbs; exact absurd hbs.1 ht
        | cons m later =>
          obtain ⟨hm, hlater'⟩ := List.forall_mem_cons.mp hlater
          rw [List.flatten_cons] at hbs
          rcases append_cases hbs with ⟨e, he, hte, -⟩ | ⟨hmt, hrem⟩ | ⟨e, he, hme, hrem⟩
          · exact framesFrom_third h hv hrest hbmax (hte ▸ hbt) hm he
          · have hat' := At.start fun x hx => h.nonempty x (hlater' x hx)
            exact framesFrom_second_end h hv hrest hbmax (hmt ▸ hbt) hm
              (ih _ _ _ _ hat' hlater' hne' hmax' hrem.symm)
          · have hat' : At tail (m :: later) (e ++ later.flatten) := by
              rw [hme]
              exact At.inside he
            exact framesFrom_second_inside h hv hrest hbmax hbt ht hm hme he
              (ih _ _ _ _ hat' hlater hne' hmax' hrem)

/--
**Framing holds exactly when every buffer is harmless.**

The connection starts idle; `cred` is its peer's uid. `valid` are the well-formed messages that
the peer may send.
-/
theorem framed_iff_harmless {shellUid : Nat} {cred : Option Nat}
    (h : lib.Frames (msgDevicedebugCheck shellUid cred) valid) (msgs : List (List UInt8))
    (hmsgs : ∀ m ∈ msgs, valid m) (buffers : List (List UInt8))
    (hcut : buffers.flatten = msgs.flatten) (hne : ∀ b ∈ buffers, b ≠ [])
    (hlt : ∀ b ∈ buffers, b.length < lib.maxMsgTotalLength) (beyond : Nat → List UInt8) :
    Framed buffers (receiveAll lib (msgDevicedebugCheck shellUid cred) beyond {} buffers) msgs ↔
      EachBuffer (Harmless lib 0 msgs) 0 buffers :=
  framed_iff h buffers [] msgs msgs.flatten 0
    (At.start fun m hm => h.nonempty m (hmsgs m hm)) hmsgs hne hlt hcut

/-! ## A message library

`wireLib` has the header of `appspawn_msg.h`: five words, the third of them `msgLen`, and a
process name of 256 bytes. A node has zeros where nothing has been received yet. -/

def headerLen : Nat := 276

/-- `msgLen`, little endian at offset 8. -/
def lengthField (held : List UInt8) : Nat :=
  ((held.drop 8).take 4).foldr (fun b acc => b.toNat + 256 * acc) 0

/-- How much of `range` the message that begins with `held` still needs. -/
def wireNeed (held range : List UInt8) : Nat :=
  if (held ++ range).length < headerLen then range.length
  else lengthField (held ++ range) - held.length

def wireLib : MsgLib where
  maxMsgTotalLength := 64 * 1024
  maxMsgTotalLength_le := by decide
  getAppSpawnMsgFromBuffer range message msgRecvLen :=
    let held := message.getD []
    .ok (held ++ range.take (wireNeed held range))
      (msgRecvLen + min range.length (wireNeed held range)) (range.length - wireNeed held range)
  view held :=
    { msgType := .appSpawn
      msgLen := lengthField held
      msgId := 0
      processName := "" }
  decodeAppSpawnMsg held := if held.length < headerLen then -1 else 0

/-- A message whose header tells its length. -/
def wireValid (m : List UInt8) : Prop := headerLen ≤ m.length ∧ lengthField m = m.length

instance (m : List UInt8) : Decidable (wireValid m) := inferInstanceAs (Decidable (_ ∧ _))

/-- The length is known from the first twelve bytes. -/
theorem lengthField_prefixed {a b : List UInt8} (h : a <+: b) (ha : 12 ≤ a.length) :
    lengthField a = lengthField b := by
  obtain ⟨c, rfl⟩ := h
  unfold lengthField
  rw [List.drop_append_of_le_length (by omega), List.take_append_of_le_length (by simp; omega)]

/-- What the message takes of a range that begins like its rest. -/
theorem wireNeed_spec {pre rest range : List UInt8} (hv : wireValid (pre ++ rest))
    (hp : range <+: rest ∨ rest <+: range) :
    range.take (wireNeed pre range) = rest.take range.length ∧
      min range.length (wireNeed pre range) = min range.length rest.length ∧
      range.length - wireNeed pre range = range.length - rest.length := by
  have hlen := hv.1
  rw [List.length_append] at hlen
  unfold wireNeed
  rw [List.length_append]
  split
  · -- the header is not complete, so the range ends before the message
    next hshort =>
    have hr : range <+: rest := by
      rcases hp with hp | hp
      · exact hp
      · have := hp.length_le
        omega
    have hle := hr.length_le
    rw [← List.prefix_iff_eq_take.mp hr]
    simp
    omega
  · next hlong =>
    have hfield : lengthField (pre ++ range) = pre.length + rest.length := by
      rw [← List.length_append, ← hv.2]
      rcases hp with hp | hp
      · exact lengthField_prefixed ((List.prefix_append_right_inj pre).mpr hp)
          (by rw [List.length_append]; unfold headerLen at hlong; omega)
      · exact (lengthField_prefixed ((List.prefix_append_right_inj pre).mpr hp)
          (by rw [List.length_append]; unfold headerLen at hlen; omega)).symm
    rw [hfield, Nat.add_sub_cancel_left]
    refine ⟨?_, rfl, rfl⟩
    rcases hp with hp | hp
    · rw [← List.prefix_iff_eq_take.mp hp, List.take_of_length_le hp.length_le]
    · rw [← List.prefix_iff_eq_take.mp hp, List.take_of_length_le hp.length_le]

theorem wireLib_frames {shellUid uid : Nat} (hu : uid ≠ shellUid) :
    wireLib.Frames (msgDevicedebugCheck shellUid (some uid)) wireValid where
  nonempty m hm he := by
    have := hm.1
    simp [he, headerLen] at this
  consumes pre rest range hv hrest hrange hp := by
    have hheld : (if pre = [] then none else some pre).getD [] = pre := by
      split
      · next he => exact he.symm
      · rfl
    obtain ⟨htake, hmin, hsub⟩ := wireNeed_spec hv hp
    simp only [wireLib, hheld, htake, hmin, hsub]
  msgLen_complete m hm := hm.2
  decodes m hm := by
    simp only [wireLib]
    rw [if_neg (by have := hm.1; omega)]
  admitted m _ := by simp [msgDevicedebugCheck, hu]

/-- A message of 280 bytes. -/
def wireMsg : List UInt8 :=
  List.replicate 8 0 ++ [24, 1, 0, 0] ++ List.replicate 268 0

/-- Two messages in two buffers, the first of which ends in the second message. -/
theorem framed_iff_harmless_wire :
    (∀ m ∈ [wireMsg, wireMsg], wireValid m) ∧
      Framed [wireMsg ++ wireMsg.take 5, wireMsg.drop 5]
        (receiveAll wireLib (msgDevicedebugCheck 2000 (some 0)) (fun _ => []) {}
          [wireMsg ++ wireMsg.take 5, wireMsg.drop 5]) [wireMsg, wireMsg] :=
  ⟨by decide +kernel, (framed_iff_harmless (wireLib_frames (by decide)) _
    (by decide +kernel) _ (by decide +kernel) (by decide +kernel) (by decide +kernel) _).mpr
    (by decide +kernel)⟩

/-- Three messages in one buffer: the third is never handed over and the connection is closed. -/
theorem three_messages_not_framed :
    (∀ m ∈ [wireMsg, wireMsg, wireMsg], wireValid m) ∧
      (receiveAll wireLib (msgDevicedebugCheck 2000 (some 0)) (fun _ => []) {}
        [wireMsg ++ wireMsg ++ wireMsg]).map (·.closed) = [true] ∧
      ¬ Framed [wireMsg ++ wireMsg ++ wireMsg]
        (receiveAll wireLib (msgDevicedebugCheck 2000 (some 0)) (fun _ => []) {}
          [wireMsg ++ wireMsg ++ wireMsg]) [wireMsg, wireMsg, wireMsg] :=
  ⟨by decide +kernel, by decide +kernel, fun h => absurd h.handed (by decide +kernel)⟩

/-- A message of 521 bytes. Nine of them are the header up to the first byte of `msgLen`. -/
def earlyMsg : List UInt8 :=
  List.replicate 8 0 ++ [9, 2, 0, 0] ++ List.replicate 509 0

-- after nine bytes the header tells the length 9
example :
    wireValid earlyMsg ∧
      (receiveAll wireLib (msgDevicedebugCheck 2000 (some 0)) (fun _ => []) {}
        [earlyMsg.take 9, earlyMsg.drop 9]).map (·.closed) = [true] := by decide +kernel

end Appspawn
