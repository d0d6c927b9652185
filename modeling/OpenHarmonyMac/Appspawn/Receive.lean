import OpenHarmonyMac.Appspawn.Message

/-!
# The receive loop of a connection

`OnReceiveRequest` takes the messages out of a buffer one after the other. Nothing that
`ProcessRecvMsg` does comes back into the loop, so the loop is described by the rounds it
makes: what each round read and what became of the message node. The effects of the rounds
on the server are in `Appspawn/Dispatch.lean`.

Lengths are `uint32_t`: `add32` and `sub32` wrap.
-/

namespace Appspawn

/-! ## `uint32_t` arithmetic -/

/-- `a + b` on `uint32_t`. -/
def add32 (a b : Nat) : Nat := (a + b) % 2 ^ 32

/-- `a - b` on `uint32_t`. -/
def sub32 (a b : Nat) : Nat := (a + (2 ^ 32 - b % 2 ^ 32)) % 2 ^ 32

theorem sub32_of_le {a b : Nat} (ha : a < 2 ^ 32) (h : b ≤ a) : sub32 a b = a - b := by
  unfold sub32
  omega

theorem add32_of_lt {a b : Nat} (h : a + b < 2 ^ 32) : add32 a b = a + b := by
  unfold add32
  omega

/-! ## One buffer -/

/-- `connection->receiverCtx`, the part that framing needs. -/
structure ReceiverCtx where
  incompleteMsg : Option (List UInt8) := none
  msgRecvLen : Nat := 0
deriving DecidableEq, Repr

/-- What a round of the loop does with its message node. -/
inductive Piece
  /-- `GetAppSpawnMsgFromBuffer` failed; the node, if there is one, is deleted below the loop. -/
  | failed (message : Option (List UInt8))
  /-- The message is not complete: it goes to `receiverCtx.incompleteMsg`. -/
  | incomplete (message : List UInt8)
  /-- `MsgDevicedebugCheck` said no: the task is closed and the function returns. -/
  | refused (message : List UInt8)
  /-- `DecodeAppSpawnMsg` failed; the node is deleted below the loop. -/
  | undecoded (message : List UInt8)
  /-- The message went to `ProcessRecvMsg`. -/
  | dispatched (message : List UInt8)
deriving DecidableEq, Repr

/-- One round of the `do ... while` loop. -/
structure Round where
  /-- `currLen`. The round begins with a log line that reads the word there. -/
  start : Nat
  /-- `buffLen - currLen`, the length handed to the library. -/
  avail : Nat
  piece : Piece
  msgRecvLen : Nat
  reminder : Nat
deriving DecidableEq, Repr

/-- `MsgDevicedebugCheck`: `cred` is the peer's uid, `none` when `getsockopt` fails, and
`shellUid` is `DecodeUid("shell")`. -/
def msgDevicedebugCheck (shellUid : Nat) (cred : Option Nat) (msg : AppSpawnMsg) : Bool :=
  match cred with
  | none => false
  | some uid => if uid ≠ shellUid then true else msg.msgType == .deviceDebug

variable (lib : MsgLib) (check : AppSpawnMsg → Bool)

/-- The memory the library is pointed at: the rest of the buffer, or `beyond` when
`currLen` has passed its end. -/
def rangeAt (buffer : List UInt8) (beyond : Nat → List UInt8) (currLen : Nat) : List UInt8 :=
  if currLen ≤ buffer.length then buffer.drop currLen else beyond currLen

/-- What is done with a node after `GetAppSpawnMsgFromBuffer` returned 0. -/
def classify (message : List UInt8) (msgRecvLen : Nat) : Piece :=
  if msgRecvLen ≠ (lib.view message).msgLen then .incomplete message
  else if check (lib.view message) = false then .refused message
  else if lib.decodeAppSpawnMsg message ≠ 0 then .undecoded message
  else .dispatched message

/-- The body of the loop. -/
def recvRound (buffer : List UInt8) (beyond : Nat → List UInt8) (message : Option (List UInt8))
    (msgRecvLen currLen : Nat) : Round :=
  match lib.getAppSpawnMsgFromBuffer (rangeAt buffer beyond currLen) message msgRecvLen with
  | .error m =>
    { start := currLen, avail := sub32 buffer.length currLen, piece := .failed m,
      msgRecvLen := msgRecvLen, reminder := 0 }
  | .ok m n r =>
    { start := currLen, avail := sub32 buffer.length currLen, piece := classify lib check m n,
      msgRecvLen := n, reminder := r }

/-- The loop. Only a round that dispatched its message can be followed by another one; the
next one starts with `message == NULL`, `msgRecvLen == 0` and the advanced `currLen`. -/
def recvLoop (buffer : List UInt8) (beyond : Nat → List UInt8) :
    Nat → Option (List UInt8) → Nat → Nat → List Round
  | 0, _, _, _ => []
  | fuel + 1, message, msgRecvLen, currLen =>
    let r := recvRound lib check buffer beyond message msgRecvLen currLen
    match r.piece with
    | .dispatched _ =>
      if 0 < r.reminder then
        r :: recvLoop buffer beyond fuel none 0 (add32 currLen (sub32 buffer.length r.reminder))
      else [r]
    | _ => [r]

/-- The outcome of one call of `OnReceiveRequest`. -/
structure Received where
  rounds : List Round
  ctx : ReceiverCtx
  /-- The task was closed. -/
  closed : Bool
deriving DecidableEq, Repr

/-- What the code below the loop makes of the last round. -/
def afterLoop (ctx : ReceiverCtx) (rounds : List Round) : Received :=
  match rounds.getLast? with
  | none => { rounds, ctx, closed := false }
  | some r =>
    match r.piece with
    | .incomplete m =>
      { rounds, ctx := { incompleteMsg := some m, msgRecvLen := r.msgRecvLen }, closed := false }
    | .dispatched _ => { rounds, ctx := {}, closed := false }
    | _ => { rounds, ctx := {}, closed := true }

/-- `OnReceiveRequest` -/
def onReceiveRequest (beyond : Nat → List UInt8) (ctx : ReceiverCtx) (buffer : List UInt8) :
    Received :=
  if buffer.length < lib.maxMsgTotalLength then
    afterLoop ctx (recvLoop lib check buffer beyond (buffer.length + 1) ctx.incompleteMsg
      ctx.msgRecvLen 0)
  else { rounds := [], ctx, closed := true }

/-- The calls made for a sequence of buffers. No buffer is delivered after a close. -/
def receiveAll (beyond : Nat → List UInt8) : ReceiverCtx → List (List UInt8) → List Received
  | _, [] => []
  | ctx, b :: bs =>
    let r := onReceiveRequest lib check beyond ctx b
    r :: if r.closed then [] else receiveAll beyond r.ctx bs

/-! ## What the calls did -/

/-- The message that a round handed to `ProcessRecvMsg`. -/
def Piece.handed : Piece → List (List UInt8)
  | .dispatched m => [m]
  | _ => []

def Received.handed (r : Received) : List (List UInt8) := r.rounds.flatMap (·.piece.handed)

/-- The messages handed to `ProcessRecvMsg`, in order. -/
def handedOver (calls : List Received) : List (List UInt8) := calls.flatMap Received.handed

/-- The end of the word that the log line of a round reads, `*(uint32_t *)(buffer + currLen)`. -/
def Round.logEnd (r : Round) : Nat := r.start + 4

/-- The rounds read the buffer from `pos` to its end without a gap or an overlap: each one
starts where the one before stopped and is given exactly the rest of the buffer. What a round
logs lies in the buffer too. -/
def ReadsOn (len : Nat) : Nat → List Round → Prop
  | pos, [] => pos = len
  | pos, r :: rs =>
    r.start = pos ∧ r.logEnd ≤ len ∧ r.avail = len - pos ∧ r.reminder ≤ r.avail ∧
      ReadsOn len (len - r.reminder) rs

instance ReadsOn.decidable (len : Nat) : ∀ pos rs, Decidable (ReadsOn len pos rs)
  | _, [] => inferInstanceAs (Decidable (_ = _))
  | _, r :: rs =>
    have := ReadsOn.decidable len (len - r.reminder) rs
    inferInstanceAs (Decidable (_ ∧ _ ∧ _ ∧ _ ∧ _))

/-- Only the last round of a call can be one that did not dispatch its message. -/
def WellShaped : List Piece → Prop
  | [] => True
  | [_] => True
  | p :: q :: ps => (∃ m, p = .dispatched m) ∧ WellShaped (q :: ps)

theorem recvLoop_wellShaped (buffer : List UInt8) (beyond : Nat → List UInt8) :
    ∀ (fuel : Nat) (message : Option (List UInt8)) (msgRecvLen currLen : Nat),
      WellShaped ((recvLoop lib check buffer beyond fuel message msgRecvLen currLen).map (·.piece))
  | 0, _, _, _ => trivial
  | fuel + 1, message, msgRecvLen, currLen => by
    rw [recvLoop]
    cases hp : (recvRound lib check buffer beyond message msgRecvLen currLen).piece with
    | dispatched m =>
      simp only
      split
      · have ih := recvLoop_wellShaped buffer beyond fuel none 0
          (add32 currLen (sub32 buffer.length
            (recvRound lib check buffer beyond message msgRecvLen currLen).reminder))
        revert ih
        generalize recvLoop lib check buffer beyond fuel none 0 _ = rs
        intro ih
        cases rs with
        | nil => trivial
        | cons r rs => exact ⟨⟨m, hp⟩, ih⟩
      · trivial
    | _ => trivial

theorem afterLoop_rounds (ctx : ReceiverCtx) (rounds : List Round) :
    (afterLoop ctx rounds).rounds = rounds := by
  unfold afterLoop
  split
  · rfl
  · split <;> rfl

/-- **The rounds of a call are dispatches, ended by at most one other round.** -/
theorem onReceiveRequest_wellShaped (beyond : Nat → List UInt8) (ctx : ReceiverCtx)
    (buffer : List UInt8) :
    WellShaped ((onReceiveRequest lib check beyond ctx buffer).rounds.map (·.piece)) := by
  unfold onReceiveRequest
  split
  · rw [afterLoop_rounds]
    exact recvLoop_wellShaped lib check buffer beyond _ _ _ _
  · trivial

end Appspawn
