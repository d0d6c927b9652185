import Mathlib.Logic.Function.Basic
import OpenHarmonyMac.Infra.TimerLoop
import OpenHarmonyMac.Infra.Transition
import OpenHarmonyMac.Appspawn.Ownership

/-!
# The receive timers

A connection that holds an incomplete message runs a timer. `OnReceiveRequest` stops it when the
message is complete and starts one when the rounds are over, `OnClose` stops it, and its handler
closes the connection.

* `Receivers` — the connections and the loop that their timers run in
* `receive_timers_kept` — a timer is armed just in case there is an incomplete message, and none is
  lost
-/

namespace Appspawn

open Infra

/-- The part of an `AppSpawnConnection` that the receive path works on. -/
structure Receiver (Handle : Type) where
  /-- The connection's task is in the loop. -/
  isOpen : Bool := false
  ctx : ReceiverCtx := {}
  /-- `receiverCtx.timer`, `none` for NULL. -/
  timer : Option Handle := none

/-- The handler of each timer is `WaitMsgCompleteTimeOut` with a connection. -/
structure Receivers (tl : TimerLoop ConnId) where
  loop : tl.Loop
  receiver : ConnId → Receiver tl.Handle

/-- What the environment answers during one call of `OnReceiveRequest`. -/
structure RecvEnv where
  /-- What lies behind the buffer. -/
  beyond : Nat → List UInt8 := fun _ => []
  /-- `MsgDevicedebugCheck` -/
  check : AppSpawnMsg → Bool := fun _ => true
  /-- How many rounds may follow the first one. -/
  more : Nat
  createTimer : Bool := true
  startTimer : Bool := true

namespace Receivers

variable {tl : TimerLoop ConnId} (lib : MsgLib) (maxWaitMsgComplete : Nat)

/-! ## The functions -/

def update (s : Receivers tl) (c : ConnId) (f : Receiver tl.Handle → Receiver tl.Handle) :
    Receivers tl :=
  { s with receiver := Function.update s.receiver c (f (s.receiver c)) }

/-- `LE_StopTimer` for a timer that is not NULL, which is NULL then. -/
def stopTimer (s : Receivers tl) (c : ConnId) : Receivers tl :=
  match (s.receiver c).timer with
  | none => s
  | some h => { s.update c fun x => { x with timer := none } with loop := tl.stop s.loop h }

/-- `receiverCtx.incompleteMsg = NULL` -/
def dropIncomplete (s : Receivers tl) (c : ConnId) : Receivers tl :=
  s.update c fun x => { x with ctx := { x.ctx with incompleteMsg := none } }

/-- `OnClose` -/
def onClose (s : Receivers tl) (c : ConnId) : Receivers tl := (s.stopTimer c).dropIncomplete c

/-- `LE_CloseTask`: the close handler runs and the task leaves the loop. -/
def closeTask (s : Receivers tl) (c : ConnId) : Receivers tl :=
  (s.onClose c).update c fun x => { x with isOpen := false }

/-- `WaitMsgCompleteTimeOut` -/
def waitMsgCompleteTimeOut (s : Receivers tl) (c : ConnId) : Receivers tl :=
  (s.dropIncomplete c).closeTask c

/-- `LE_CreateTimer` into `receiverCtx.timer` -/
def createTimer (s : Receivers tl) (c : ConnId) : Receivers tl where
  loop := (tl.create s.loop c).1
  receiver := Function.update s.receiver c
    { s.receiver c with timer := some (tl.create s.loop c).2 }

/-- `LE_StartTimer` for `receiverCtx.timer` -/
def startTimer (s : Receivers tl) (c : ConnId) : Receivers tl :=
  match (s.receiver c).timer with
  | none => s
  | some h => { s with loop := tl.start s.loop h maxWaitMsgComplete }

/-- `StartTimerForCheckMsg`, and the close when it fails. -/
def startTimerForCheckMsg (env : RecvEnv) (s : Receivers tl) (c : ConnId) : Receivers tl :=
  match (s.receiver c).timer with
  | some _ => s
  | none =>
    if env.createTimer then
      if env.startTimer then (s.createTimer c).startTimer maxWaitMsgComplete c
      else (s.createTimer c).closeTask c
    else s.closeTask c

/-- What a round of `OnReceiveRequest` does with `receiverCtx`. -/
def runPiece (c : ConnId) (s : Receivers tl) (r : Round) : Receivers tl :=
  match r.piece with
  | .failed _ => s
  | .incomplete message =>
    s.update c fun x =>
      { x with ctx := { incompleteMsg := some message, msgRecvLen := r.msgRecvLen } }
  -- The message is complete.
  | _ => (s.update c fun x => { x with ctx := { x.ctx with msgRecvLen := 0 } }).stopTimer c

/-- The rounds for a buffer. -/
def rounds (env : RecvEnv) (ctx : ReceiverCtx) (buffer : List UInt8) : List Round :=
  recvLoop lib env.check buffer env.beyond (env.more + 1) ctx.incompleteMsg ctx.msgRecvLen 0

/-- `OnReceiveRequest` -/
def onReceiveRequest (env : RecvEnv) (s : Receivers tl) (c : ConnId) (buffer : List UInt8) :
    Receivers tl :=
  if buffer.length < lib.maxMsgTotalLength then
    let r := afterLoop (s.receiver c).ctx (rounds lib env (s.receiver c).ctx buffer)
    let s := r.rounds.foldl (runPiece c) (s.dropIncomplete c)
    if r.closed then s.closeTask c
    else if (s.receiver c).ctx.incompleteMsg.isSome then
      startTimerForCheckMsg maxWaitMsgComplete env s c
    else s
  else s.closeTask c

/-! ## The loop -/

inductive Event (tl : TimerLoop ConnId)
  /-- `OnConnection` -/
  | connection (c : ConnId)
  | receive (c : ConnId) (buffer : List UInt8) (env : RecvEnv)
  /-- The time of an armed timer is over, and its handler runs. -/
  | timeout (timer : tl.Handle)
  | close (c : ConnId)

def step (s : Receivers tl) : Event tl → Receivers tl
  | .connection c => s.update c fun _ => { isOpen := true }
  | .receive c buffer env => s.onReceiveRequest lib maxWaitMsgComplete env c buffer
  | .timeout timer =>
    match tl.handler s.loop timer with
    | none => s
    | some c => { s with loop := tl.expire s.loop timer }.waitMsgCompleteTimeOut c
  | .close c => s.closeTask c

def Enabled (s : Receivers tl) : Event tl → Prop
  | .connection c => (s.receiver c).isOpen = false
  | .receive c _ _ => (s.receiver c).isOpen = true
  | .timeout timer => tl.armed s.loop timer = true
  | .close c => (s.receiver c).isOpen = true

instance (s : Receivers tl) : ∀ e : Event tl, Decidable (s.Enabled e)
  | .connection c => inferInstanceAs (Decidable ((s.receiver c).isOpen = false))
  | .receive c _ _ => inferInstanceAs (Decidable ((s.receiver c).isOpen = true))
  | .timeout timer => inferInstanceAs (Decidable (tl.armed s.loop timer = true))
  | .close c => inferInstanceAs (Decidable ((s.receiver c).isOpen = true))

/-- The server without a connection. -/
def empty (tl : TimerLoop ConnId) : Receivers tl := { loop := tl.empty, receiver := fun _ => {} }

end Receivers

/-- The connections of the server, from before the first one. -/
def receiving (tl : TimerLoop ConnId) (lib : MsgLib) (maxWaitMsgComplete : Nat) :
    System (Receivers tl) (Receivers.Event tl) where
  init s := (∀ c, s.receiver c = {}) ∧ ∀ h, ¬ tl.Exists s.loop h
  enabled s e := s.Enabled e
  step s e := s.step lib maxWaitMsgComplete e

instance (tl : TimerLoop ConnId) (lib : MsgLib) (maxWaitMsgComplete : Nat) (s : Receivers tl)
    (e : Receivers.Event tl) : Decidable ((receiving tl lib maxWaitMsgComplete).enabled s e) :=
  inferInstanceAs (Decidable (s.Enabled e))

namespace Receivers

variable {tl : TimerLoop ConnId} {lib : MsgLib} {maxWaitMsgComplete : Nat}
  {s s' s'' : Receivers tl} {c c' : ConnId} {h h' : tl.Handle}

/-! ## The books -/

/-- A connection holds the handle of each timer that has it as its context, and of no other. -/
structure Books (s : Receivers tl) : Prop where
  handler_iff : ∀ c h, (s.receiver c).timer = some h ↔ tl.handler s.loop h = some c
  closed : ∀ c, (s.receiver c).isOpen = false → (s.receiver c).timer = none

def ArmedFor (s : Receivers tl) (c : ConnId) : Prop :=
  ∀ h, (s.receiver c).timer = some h → tl.armed s.loop h = true

/-- The timer of the connection is armed, and there is one just in case a message is incomplete. -/
structure Settled (s : Receivers tl) (c : ConnId) : Prop where
  armed : s.ArmedFor c
  timer_iff : (s.receiver c).timer.isSome = (s.receiver c).ctx.incompleteMsg.isSome

/-- Only the connection `c` is concerned. -/
structure Local (c : ConnId) (s s' : Receivers tl) : Prop where
  receiver : ∀ c', c' ≠ c → s'.receiver c' = s.receiver c'
  armed : ∀ c', c' ≠ c → s.ArmedFor c' → s'.ArmedFor c'

theorem Local.refl (c : ConnId) (s : Receivers tl) : Local c s s :=
  ⟨fun _ _ => rfl, fun _ _ ha => ha⟩

theorem Local.trans (h : Local c s s') (h' : Local c s' s'') : Local c s s'' where
  receiver c' hne := (h'.receiver c' hne).trans (h.receiver c' hne)
  armed c' hne ha := h'.armed c' hne (h.armed c' hne ha)

theorem Local.settled (h : Local c s s') (hne : c' ≠ c) (hs : s.Settled c') : s'.Settled c' where
  armed := h.armed c' hne hs.armed
  timer_iff := by
    rw [h.receiver c' hne]
    exact hs.timer_iff

/-- Two connections do not hold the same timer. -/
theorem Books.injective (hb : Books s) (ht : (s.receiver c).timer = some h)
    (ht' : (s.receiver c').timer = some h) : c' = c := by
  have hh := (hb.handler_iff c h).mp ht
  rw [(hb.handler_iff c' h).mp ht'] at hh
  exact Option.some.inj hh

theorem receiver_update_self (f : Receiver tl.Handle → Receiver tl.Handle) :
    (s.update c f).receiver c = f (s.receiver c) := Function.update_self c _ _

theorem receiver_update_ne (f : Receiver tl.Handle → Receiver tl.Handle) (hne : c' ≠ c) :
    (s.update c f).receiver c' = s.receiver c' := Function.update_of_ne hne _ _

/-! ## A change of the record -/

theorem local_update (f : Receiver tl.Handle → Receiver tl.Handle) : Local c s (s.update c f) where
  receiver c' hne := receiver_update_ne f hne
  armed c' hne ha := by
    intro h ht
    rw [receiver_update_ne f hne] at ht
    exact ha h ht

theorem Books.update (hb : Books s) {f : Receiver tl.Handle → Receiver tl.Handle}
    (htimer : (f (s.receiver c)).timer = (s.receiver c).timer)
    (hopen : (f (s.receiver c)).isOpen = false → (s.receiver c).timer = none) :
    Books (s.update c f) where
  handler_iff c' h := by
    show _ ↔ tl.handler s.loop h = some c'
    by_cases hc : c' = c
    · subst hc
      rw [receiver_update_self, htimer]
      exact hb.handler_iff c' h
    · rw [receiver_update_ne f hc]
      exact hb.handler_iff c' h
  closed c' := by
    by_cases hc : c' = c
    · subst hc
      rw [receiver_update_self, htimer]
      exact hopen
    · rw [receiver_update_ne f hc]
      exact hb.closed c'

/-! ## A timer is stopped -/

/-- A timer ends, and the connection that held it holds none. -/
theorem Books.drop (hb : Books s) (ht : (s.receiver c).timer = some h) {l : tl.Loop}
    (hnone : tl.handler l h = none) (hne : ∀ h', h' ≠ h → tl.handler l h' = tl.handler s.loop h')
    {x : Receiver tl.Handle} (hx : x.timer = none) :
    Books { loop := l, receiver := Function.update s.receiver c x } where
  handler_iff c' h' := by
    show (Function.update s.receiver c x c').timer = some h' ↔ tl.handler l h' = some c'
    by_cases hh : h' = h
    · subst hh
      rw [hnone]
      refine iff_of_false ?_ (fun he => by cases he)
      intro ht'
      by_cases hc : c' = c
      · subst hc
        rw [Function.update_self, hx] at ht'
        cases ht'
      · rw [Function.update_of_ne hc] at ht'
        exact hc (hb.injective ht ht')
    · rw [hne h' hh, ← hb.handler_iff c' h']
      by_cases hc : c' = c
      · subst hc
        rw [Function.update_self, hx, ht]
        simp [Ne.symm hh]
      · rw [Function.update_of_ne hc]
  closed c' := by
    show (Function.update s.receiver c x c').isOpen = false → _
    by_cases hc : c' = c
    · subst hc
      intro _
      show (Function.update s.receiver c' x c').timer = none
      rw [Function.update_self, hx]
    · intro hopen
      show (Function.update s.receiver c x c').timer = none
      rw [Function.update_of_ne hc] at hopen ⊢
      exact hb.closed c' hopen

theorem Books.local_drop (hb : Books s) (ht : (s.receiver c).timer = some h) {l : tl.Loop}
    (harmed : ∀ h', h' ≠ h → tl.armed l h' = tl.armed s.loop h') {x : Receiver tl.Handle} :
    Local c s { loop := l, receiver := Function.update s.receiver c x } where
  receiver c' hne := Function.update_of_ne hne _ _
  armed c' hne ha := by
    intro h' ht'
    have ht' : (Function.update s.receiver c x c').timer = some h' := ht'
    rw [Function.update_of_ne hne] at ht'
    have hh : h' ≠ h := by
      rintro rfl
      exact hne (hb.injective ht ht')
    show tl.armed l h' = true
    rw [harmed h' hh]
    exact ha h' ht'

theorem stopTimer_receiver : (s.stopTimer c).receiver c = { s.receiver c with timer := none } := by
  unfold stopTimer
  split
  · next hnone => rw [← hnone]
  · exact receiver_update_self fun x => { x with timer := none }

theorem Books.stopTimer (hk : tl.KeepsHandlers) (hb : Books s) : Books (s.stopTimer c) := by
  unfold Receivers.stopTimer
  split
  · exact hb
  · next h ht => exact hb.drop ht (tl.handler_stop _ _) (fun h' hne => hk.stop_ne _ _ _ hne) rfl

theorem Books.local_stopTimer (hb : Books s) : Local c s (s.stopTimer c) := by
  unfold Receivers.stopTimer
  split
  · exact Local.refl c s
  · next h ht => exact hb.local_drop ht fun h' hne => tl.armed_stop_ne _ _ _ hne

/-! ## A connection is closed -/

theorem dropIncomplete_receiver : (s.dropIncomplete c).receiver c =
    { s.receiver c with ctx := { (s.receiver c).ctx with incompleteMsg := none } } :=
  receiver_update_self _

theorem Books.dropIncomplete (hb : Books s) : Books (s.dropIncomplete c) :=
  hb.update rfl (hb.closed c)

theorem closeTask_receiver : (s.closeTask c).receiver c =
    { isOpen := false, ctx := { (s.receiver c).ctx with incompleteMsg := none }, timer := none } := by
  unfold closeTask onClose
  rw [receiver_update_self, dropIncomplete_receiver, stopTimer_receiver]

theorem settled_closeTask : (s.closeTask c).Settled c where
  armed := by
    intro h ht
    rw [closeTask_receiver] at ht
    cases ht
  timer_iff := by rw [closeTask_receiver]; rfl

/-! ## A timer is started -/

theorem createTimer_receiver : (s.createTimer c).receiver c =
    { s.receiver c with timer := some (tl.create s.loop c).2 } := Function.update_self c _ _

theorem createTimer_receiver_ne (hne : c' ≠ c) :
    (s.createTimer c).receiver c' = s.receiver c' := Function.update_of_ne hne _ _

/-- An open connection without a timer gets a new one. -/
theorem Books.createTimer (hk : tl.KeepsHandlers) (hb : Books s) (ht : (s.receiver c).timer = none)
    (hopen : (s.receiver c).isOpen = true) : Books (s.createTimer c) where
  handler_iff c' h := by
    show _ ↔ tl.handler (tl.create s.loop c).1 h = some c'
    by_cases hh : h = (tl.create s.loop c).2
    · subst hh
      rw [tl.handler_create]
      by_cases hc : c' = c
      · subst hc
        rw [createTimer_receiver]
        exact iff_of_true rfl rfl
      · -- The new handle is that of no timer before.
        rw [createTimer_receiver_ne hc, hb.handler_iff, hk.create_fresh]
        simp [Ne.symm hc]
    · rw [hk.create_ne _ _ _ hh, ← hb.handler_iff c' h]
      by_cases hc : c' = c
      · subst hc
        rw [createTimer_receiver, ht]
        simp [Ne.symm hh]
      · rw [createTimer_receiver_ne hc]
  closed c' := by
    by_cases hc : c' = c
    · subst hc
      rw [createTimer_receiver]
      intro hclosed
      rw [show (s.receiver c').isOpen = false from hclosed] at hopen
      cases hopen
    · rw [createTimer_receiver_ne hc]
      exact hb.closed c'

theorem local_createTimer : Local c s (s.createTimer c) where
  receiver c' hne := createTimer_receiver_ne hne
  armed c' hne ha := by
    intro h ht
    rw [createTimer_receiver_ne hne] at ht
    show tl.armed (tl.create s.loop c).1 h = true
    rw [tl.armed_create]
    exact ha h ht

theorem startTimer_receiver : (s.startTimer maxWaitMsgComplete c).receiver = s.receiver := by
  unfold startTimer
  split <;> rfl

theorem Books.startTimer (hk : tl.KeepsHandlers) (hb : Books s) :
    Books (s.startTimer maxWaitMsgComplete c) := by
  unfold Receivers.startTimer
  split
  · exact hb
  · refine ⟨fun c' h' => ?_, hb.closed⟩
    show _ ↔ tl.handler (tl.start _ _ _) h' = some c'
    rw [hk.start]
    exact hb.handler_iff c' h'

theorem Books.local_startTimer (hb : Books s) : Local c s (s.startTimer maxWaitMsgComplete c) := by
  refine ⟨fun c' _ => by rw [startTimer_receiver], fun c' hne ha => ?_⟩
  intro h' ht'
  rw [startTimer_receiver] at ht'
  unfold Receivers.startTimer
  split
  · exact ha h' ht'
  · next h ht =>
    have hh : h' ≠ h := by
      rintro rfl
      exact hne (hb.injective ht ht')
    show tl.armed (tl.start s.loop h _) h' = true
    rw [tl.armed_start_ne _ _ _ _ hh]
    exact ha h' ht'

/-- The timer that is started is armed, because it exists. -/
theorem Books.armedFor_startTimer (hb : Books s) :
    (s.startTimer maxWaitMsgComplete c).ArmedFor c := by
  intro h ht
  rw [startTimer_receiver] at ht
  have hexists : (tl.handler s.loop h).isSome := by
    rw [(hb.handler_iff c h).mp ht]
    rfl
  unfold Receivers.startTimer
  rw [ht]
  exact tl.armed_start _ _ _ hexists

/-- What a function does that is called for one connection. -/
structure Serves (c : ConnId) (s s' : Receivers tl) : Prop where
  books : Books s'
  others : Local c s s'
  settled : s'.Settled c

/-- Behind the end of its timer a connection is closed. -/
theorem serves_closeTask (hb : Books (s'.stopTimer c)) (hl : Local c s (s'.stopTimer c)) :
    Serves c s (s'.closeTask c) where
  books := by
    refine hb.dropIncomplete.update rfl fun _ => ?_
    rw [dropIncomplete_receiver, stopTimer_receiver]
  others := by
    unfold closeTask onClose dropIncomplete
    exact (hl.trans (local_update _)).trans (local_update _)
  settled := settled_closeTask

theorem Books.serves_closeTask (hk : tl.KeepsHandlers) (hb : Books s) : Serves c s (s.closeTask c) :=
  Receivers.serves_closeTask (hb.stopTimer hk) hb.local_stopTimer

theorem Serves.of_local (h : Serves c s' s'') (hl : Local c s s') : Serves c s s'' :=
  ⟨h.books, hl.trans h.others, h.settled⟩

/-- **`StartTimerForCheckMsg`** leaves an armed timer, or the connection is closed. -/
theorem Books.startTimerForCheckMsg (hk : tl.KeepsHandlers) (hb : Books s) (ha : s.ArmedFor c)
    (hopen : (s.receiver c).isOpen = true)
    (hmsg : (s.receiver c).ctx.incompleteMsg.isSome = true) (env : RecvEnv) :
    Serves c s (startTimerForCheckMsg maxWaitMsgComplete env s c) := by
  unfold Receivers.startTimerForCheckMsg
  split
  · next h ht => exact ⟨hb, Local.refl c s, ha, by rw [ht, hmsg]; rfl⟩
  · next ht =>
    have hcreate : Books (s.createTimer c) := hb.createTimer hk ht hopen
    split
    · split
      · refine ⟨hcreate.startTimer hk, local_createTimer.trans hcreate.local_startTimer,
          hcreate.armedFor_startTimer, ?_⟩
        rw [startTimer_receiver, createTimer_receiver]
        exact hmsg.symm
      · exact (hcreate.serves_closeTask hk).of_local local_createTimer
    · exact hb.serves_closeTask hk

/-! ## The rounds of a call -/

/-- What the rounds keep while they work on the connection. -/
structure During (c : ConnId) (s s' : Receivers tl) : Prop where
  books : Books s'
  others : Local c s s'
  armed : s.ArmedFor c → s'.ArmedFor c
  isOpen : (s'.receiver c).isOpen = (s.receiver c).isOpen

theorem During.trans (h : During c s s') (h' : During c s' s'') : During c s s'' where
  books := h'.books
  others := h.others.trans h'.others
  armed ha := h'.armed (h.armed ha)
  isOpen := h'.isOpen.trans h.isOpen

/-- A change of the message. -/
theorem Books.during_update (hb : Books s) {f : Receiver tl.Handle → Receiver tl.Handle}
    (htimer : (f (s.receiver c)).timer = (s.receiver c).timer)
    (hopen : (f (s.receiver c)).isOpen = (s.receiver c).isOpen) : During c s (s.update c f) where
  books := hb.update htimer fun hclosed => hb.closed c (hopen ▸ hclosed)
  others := local_update f
  armed ha := by
    intro h ht
    rw [receiver_update_self, htimer] at ht
    exact ha h ht
  isOpen := by rw [receiver_update_self, hopen]

theorem Books.during_stopTimer (hk : tl.KeepsHandlers) (hb : Books s) :
    During c s (s.stopTimer c) where
  books := hb.stopTimer hk
  others := hb.local_stopTimer
  armed _ := by
    intro h ht
    rw [stopTimer_receiver] at ht
    cases ht
  isOpen := by rw [stopTimer_receiver]

theorem Books.during_runPiece (hk : tl.KeepsHandlers) (hb : Books s) (r : Round) :
    During c s (runPiece c s r) := by
  unfold Receivers.runPiece
  split
  · exact ⟨hb, Local.refl c s, id, rfl⟩
  · exact hb.during_update rfl rfl
  · have hcomplete : During c s
        (s.update c fun x => { x with ctx := { x.ctx with msgRecvLen := 0 } }) :=
      hb.during_update rfl rfl
    exact hcomplete.trans (hcomplete.books.during_stopTimer hk)

theorem Books.during_rounds (hk : tl.KeepsHandlers) (hb : Books s) (rs : List Round) :
    During c s (rs.foldl (runPiece c) s) := by
  induction rs generalizing s with
  | nil => exact ⟨hb, Local.refl c s, id, rfl⟩
  | cons r rs ih =>
    have hround := hb.during_runPiece (c := c) hk r
    exact hround.trans (ih hround.books)

/-- The rounds leave the connection open. -/
theorem isOpen_rounds (rs : List Round) :
    ((rs.foldl (runPiece c) s).receiver c).isOpen = (s.receiver c).isOpen := by
  induction rs generalizing s with
  | nil => rfl
  | cons r rs ih =>
    rw [List.foldl_cons, ih]
    unfold runPiece
    split
    · rfl
    · rw [receiver_update_self]
    · rw [stopTimer_receiver, receiver_update_self]

/-- A message that is complete leaves no timer and no incomplete message behind. -/
theorem runPiece_dispatched {r : Round} {message : List UInt8} (hp : r.piece = .dispatched message) :
    ((runPiece c s r).receiver c).timer = none ∧
      ((runPiece c s r).receiver c).ctx.incompleteMsg = (s.receiver c).ctx.incompleteMsg := by
  unfold runPiece
  rw [hp]
  dsimp only
  rw [stopTimer_receiver, receiver_update_self]
  exact ⟨rfl, rfl⟩

theorem afterLoop_closed_cons {ctx : ReceiverCtx} {r r' : Round} {rs : List Round} :
    (afterLoop ctx (r :: r' :: rs)).closed = (afterLoop ctx (r' :: rs)).closed := by
  unfold afterLoop
  rw [List.getLast?_cons_cons]
  cases (r' :: rs).getLast? with
  | none => rfl
  | some last =>
    dsimp only
    split <;> rfl

/-- **When the rounds leave the connection open**, there is no timer left without an incomplete
message. By induction on the rounds, all but the last of which dispatched their message. -/
theorem rounds_timer {ctx : ReceiverCtx} (rs : List Round) (hne : rs ≠ [])
    (hshape : WellShaped (rs.map (·.piece))) (hopen : (afterLoop ctx rs).closed = false)
    (hs : (s.receiver c).ctx.incompleteMsg = none)
    (hnone : ((rs.foldl (runPiece c) s).receiver c).ctx.incompleteMsg = none) :
    ((rs.foldl (runPiece c) s).receiver c).timer = none := by
  induction rs generalizing s with
  | nil => exact absurd rfl hne
  | cons r rs ih =>
    cases rs with
    | nil =>
      unfold afterLoop at hopen
      rw [List.foldl_cons, List.foldl_nil] at hnone ⊢
      cases hp : r.piece with
      | dispatched message => exact (runPiece_dispatched hp).1
      | incomplete message =>
        unfold runPiece at hnone
        rw [hp] at hnone
        dsimp only at hnone
        rw [receiver_update_self] at hnone
        cases hnone
      | _ => simp [hp] at hopen
    | cons r' rs =>
      obtain ⟨⟨message, hp⟩, hshape⟩ := hshape
      rw [afterLoop_closed_cons] at hopen
      refine ih (List.cons_ne_nil _ _) hshape hopen ?_ hnone
      rw [(runPiece_dispatched hp).2, hs]

theorem rounds_ne_nil {env : RecvEnv} {ctx : ReceiverCtx} {buffer : List UInt8} :
    rounds lib env ctx buffer ≠ [] := by
  unfold rounds
  rw [recvLoop]
  split
  · split <;> exact List.cons_ne_nil _ _
  · exact List.cons_ne_nil _ _

/-- **`OnReceiveRequest`** leaves an open connection with an armed timer just in case a message is
incomplete. -/
theorem Books.onReceiveRequest (hk : tl.KeepsHandlers) (hb : Books s) (ha : s.ArmedFor c)
    (hopen : (s.receiver c).isOpen = true) (env : RecvEnv) (buffer : List UInt8) :
    Serves c s (s.onReceiveRequest lib maxWaitMsgComplete env c buffer) := by
  unfold Receivers.onReceiveRequest
  split
  · dsimp only
    rw [afterLoop_rounds]
    have hdrop : During c s (s.dropIncomplete c) := hb.during_update rfl rfl
    have hrun := hdrop.trans
      (hdrop.books.during_rounds hk (rounds lib env (s.receiver c).ctx buffer))
    split
    · exact (hrun.books.serves_closeTask hk).of_local hrun.others
    · next hclosed =>
      rw [Bool.not_eq_true] at hclosed
      split
      · next hmsg =>
        have hstart : Serves c _ (Receivers.startTimerForCheckMsg maxWaitMsgComplete env _ c) :=
          hrun.books.startTimerForCheckMsg hk (hrun.armed ha) (hrun.isOpen.trans hopen) hmsg env
        exact hstart.of_local hrun.others
      · next hmsg =>
        rw [Option.not_isSome_iff_eq_none] at hmsg
        have hnone : ((s.dropIncomplete c).receiver c).ctx.incompleteMsg = none := by
          rw [dropIncomplete_receiver]
        have htimer := rounds_timer _ rounds_ne_nil
          (recvLoop_wellShaped lib env.check buffer env.beyond _ _ _ _) hclosed hnone hmsg
        refine ⟨hrun.books, hrun.others, hrun.armed ha, ?_⟩
        rw [hmsg]
        exact congrArg Option.isSome htimer
  · exact hb.serves_closeTask hk

/-- **`WaitMsgCompleteTimeOut`** stops the timer that it is the handler of. -/
theorem Books.waitMsgCompleteTimeOut (hk : tl.KeepsHandlers) (hb : Books s)
    (ht : (s.receiver c).timer = some h) :
    Serves c s ({ s with loop := tl.expire s.loop h }.waitMsgCompleteTimeOut c) := by
  have ht' : ((s.dropIncomplete c).receiver c).timer = some h := by
    rw [dropIncomplete_receiver]
    exact ht
  have hstop : ({ s with loop := tl.expire s.loop h }.dropIncomplete c).stopTimer c =
      { loop := tl.stop (tl.expire s.loop h) h
        receiver := Function.update (s.dropIncomplete c).receiver c
          { (s.dropIncomplete c).receiver c with timer := none } } := by
    have ht'' : (({ s with loop := tl.expire s.loop h }.dropIncomplete c).receiver c).timer =
      some h := ht'
    unfold Receivers.stopTimer
    rw [ht'']
    rfl
  have hne : ∀ h', h' ≠ h → tl.handler (tl.stop (tl.expire s.loop h) h) h' = tl.handler s.loop h' :=
    fun h' hne => (hk.stop_ne _ _ _ hne).trans (hk.expire_ne _ _ _ hne)
  have harmed : ∀ h', h' ≠ h → tl.armed (tl.stop (tl.expire s.loop h) h) h' = tl.armed s.loop h' :=
    fun h' hne => (tl.armed_stop_ne _ _ _ hne).trans (tl.armed_expire_ne _ _ _ hne)
  have hdrop : During c s (s.dropIncomplete c) := hb.during_update rfl rfl
  refine Receivers.serves_closeTask ?_ ?_
  · rw [hstop]
    exact hdrop.books.drop ht' (tl.handler_stop _ _) hne rfl
  · rw [hstop]
    exact hdrop.others.trans (hdrop.books.local_drop ht' harmed)

/-! ## Whole runs -/

structure Kept (s : Receivers tl) : Prop where
  books : Books s
  settled : ∀ c, s.Settled c

theorem Kept.of_serves (hs : Kept s) (h : Serves c s s') : Kept s' where
  books := h.books
  settled c' := by
    by_cases hc : c' = c
    · subst hc
      exact h.settled
    · exact h.others.settled hc (hs.settled c')

/-- The connection whose timer is armed. -/
theorem Kept.exists_of_armed (hs : Kept s) (ha : tl.armed s.loop h = true) :
    ∃ c, tl.handler s.loop h = some c ∧ (s.receiver c).timer = some h := by
  obtain ⟨c, hh⟩ := Option.isSome_iff_exists.mp (tl.handler_of_armed _ _ ha)
  exact ⟨c, hh, (hs.books.handler_iff c h).mpr hh⟩

theorem Kept.step (hk : tl.KeepsHandlers) (hs : Kept s) {e : Event tl} (he : s.Enabled e) :
    Kept (s.step lib maxWaitMsgComplete e) := by
  cases e with
  | connection c =>
    have hnone := hs.books.closed c he
    show Kept (s.update c fun _ => { isOpen := true })
    refine hs.of_serves ⟨hs.books.update hnone.symm (fun _ => hnone), local_update _, ?_, ?_⟩
    · intro h ht
      rw [receiver_update_self] at ht
      cases ht
    · rw [receiver_update_self]
      rfl
  | receive c buffer env =>
    exact hs.of_serves (hs.books.onReceiveRequest hk (hs.settled c).armed he env buffer)
  | timeout h =>
    obtain ⟨c, hh, ht⟩ := hs.exists_of_armed he
    show Kept (match tl.handler s.loop h with | none => s | some c => _)
    rw [hh]
    exact hs.of_serves (hs.books.waitMsgCompleteTimeOut hk ht)
  | close c => exact hs.of_serves (hs.books.serves_closeTask hk)

theorem kept_of_init (hs : (receiving tl lib maxWaitMsgComplete).init s) : Kept s := by
  obtain ⟨hempty, hnone⟩ := hs
  refine ⟨⟨fun c h => ?_, fun c _ => ?_⟩, fun c => ⟨?_, ?_⟩⟩
  · rw [hempty]
    refine iff_of_false (fun ht => by cases ht) fun hh => hnone h ?_
    unfold TimerLoop.Exists
    rw [hh]
    rfl
  · rw [hempty]
  · intro h ht
    rw [hempty] at ht
    cases ht
  · rw [hempty]
    rfl

theorem kept_of_reachable (hk : tl.KeepsHandlers)
    (hs : (receiving tl lib maxWaitMsgComplete).Reachable s) : Kept s :=
  hs.invariant (fun _ h => kept_of_init h) fun _ _ h he => h.step hk he

/-- Neither a timer nor an incomplete message remains of the connection. -/
structure NothingRemains (s : Receivers tl) (c : ConnId) : Prop where
  timer : (s.receiver c).timer = none
  noTimer : ∀ h, tl.handler s.loop h ≠ some c
  incompleteMsg : (s.receiver c).ctx.incompleteMsg = none

theorem Kept.nothingRemains (hs : Kept s) (ht : (s.receiver c).timer = none) :
    s.NothingRemains c where
  timer := ht
  noTimer h hh := by
    rw [← hs.books.handler_iff, ht] at hh
    cases hh
  incompleteMsg := by
    have hsame := (hs.settled c).timer_iff
    rw [ht] at hsame
    exact Option.isNone_iff_eq_none.mp (by simpa using hsame.symm)

/-- The timers of the connections are as they should be. -/
structure TimersKept (s : Receivers tl) : Prop where
  /-- The timer is armed just in case an incomplete message is stored. -/
  armed_iff : ∀ c, (s.receiver c).isOpen = true →
    ((∃ h, (s.receiver c).timer = some h ∧ tl.armed s.loop h = true) ↔
      (s.receiver c).ctx.incompleteMsg.isSome = true)
  /-- A timer that exists is held by an open connection, the one that its handler is for. -/
  held : ∀ h, tl.Exists s.loop h → ∃ c, (s.receiver c).isOpen = true ∧
    (s.receiver c).timer = some h ∧ tl.handler s.loop h = some c
  closed : ∀ c, (s.receiver c).isOpen = false → s.NothingRemains c

theorem Kept.timersKept (hs : Kept s) : s.TimersKept where
  armed_iff c _ := by
    rw [← (hs.settled c).timer_iff, Option.isSome_iff_exists]
    exact exists_congr fun h => and_iff_left_of_imp ((hs.settled c).armed h)
  held h hh := by
    obtain ⟨c, hc⟩ := Option.isSome_iff_exists.mp hh
    have ht := (hs.books.handler_iff c h).mpr hc
    refine ⟨c, ?_, ht, hc⟩
    by_contra hclosed
    rw [hs.books.closed c (Bool.not_eq_true _ ▸ hclosed)] at ht
    cases ht
  closed c hclosed := hs.nothingRemains (hs.books.closed c hclosed)

end Receivers

/-- **The receive timers are kept** whatever is received, and nothing remains of a connection after
`OnClose` or the handler of its timer. -/
theorem receive_timers_kept {tl : TimerLoop ConnId} (hk : tl.KeepsHandlers) {lib : MsgLib}
    {maxWaitMsgComplete : Nat} {s : Receivers tl}
    (hs : (receiving tl lib maxWaitMsgComplete).Reachable s) :
    s.TimersKept ∧ (∀ c, (s.closeTask c).NothingRemains c) ∧
      ∀ h, tl.armed s.loop h = true → ∃ c, (s.receiver c).timer = some h ∧
        (s.step lib maxWaitMsgComplete (.timeout h)).NothingRemains c := by
  have hkept := Receivers.kept_of_reachable hk hs
  refine ⟨hkept.timersKept, fun c => ?_, fun h ha => ?_⟩
  · refine (hkept.of_serves (hkept.books.serves_closeTask hk)).nothingRemains ?_
    rw [Receivers.closeTask_receiver]
  · obtain ⟨c, hh, ht⟩ := hkept.exists_of_armed ha
    refine ⟨c, ht, ?_⟩
    have hstep : Receivers.Kept (s.step lib maxWaitMsgComplete (.timeout h)) := hkept.step hk ha
    refine hstep.nothingRemains ?_
    show ((match tl.handler s.loop h with | none => s | some c => _).receiver c).timer = none
    rw [hh]
    exact congrArg Receiver.timer Receivers.closeTask_receiver

/-- A connection that has received half a message. -/
def sampleReceivers : Receivers (.slots ConnId) :=
  [Receivers.Event.connection 1, .receive 1 [0, 0] { more := 2 }].foldl
    (receiving (.slots ConnId) tagLib 5000).step { loop := [], receiver := fun _ => {} }

/-- Its timer is armed, and nothing remains of it when its time is over. -/
theorem receive_timers_kept_run :
    (TimerLoop.slots ConnId).armed sampleReceivers.loop (0 : Nat) = true ∧
      sampleReceivers.TimersKept ∧ ∃ c, (sampleReceivers.step tagLib 5000
        (.timeout (0 : Nat))).NothingRemains c := by
  have hreach : (receiving (.slots ConnId) tagLib 5000).Reachable sampleReceivers := by
    refine ⟨_, _, ⟨fun _ => rfl, fun h hh => ?_⟩, System.Run.of_enabledAll (by decide +kernel)⟩
    cases hh
  have harmed : (TimerLoop.slots ConnId).armed sampleReceivers.loop (0 : Nat) = true := by
    decide +kernel
  obtain ⟨hkept, -, htimeout⟩ :=
    receive_timers_kept (TimerLoop.slots_keepsHandlers ConnId) hreach
  obtain ⟨c, -, hnothing⟩ := htimeout (0 : Nat) harmed
  exact ⟨harmed, hkept, c, hnothing⟩

/-! ## The records of the server -/

section Agrees

variable {k : Codes} {lib : MsgLib} {maxWaitMsgComplete : Nat} {tl : TimerLoop ConnId}
  {s : Server} {t : Receivers tl} {c : ConnId} {conn : AppSpawnConnection}

/-- The record of an open connection has the same message, and a timer if there is one. -/
structure Receiver.Matches {Handle : Type} (x : Receiver Handle) (conn : AppSpawnConnection) :
    Prop where
  isOpen : x.isOpen = true
  ctx : x.ctx = conn.receiverCtx
  timer : x.timer.isSome = conn.timer

/-- The server has a record of the connection just in case it is open. -/
structure Receivers.Agrees (t : Receivers tl) (s : Server) (c : ConnId) : Prop where
  of_some : ∀ conn, s.connectionOf c = some conn → (t.receiver c).Matches conn
  of_none : s.connectionOf c = none → (t.receiver c).isOpen = false

/-- The environment of the call without what the dispatched messages find out. -/
def ReceiveEnv.recvEnv (shellUid : Nat) (env : ReceiveEnv) (conn : AppSpawnConnection)
    (buffer : List UInt8) : RecvEnv where
  beyond := env.beyond
  check := msgDevicedebugCheck shellUid (if env.credOk then conn.peerUid else none)
  more := buffer.length
  createTimer := env.createTimer
  startTimer := env.startTimer

theorem connectionOf_updateConnection {f : AppSpawnConnection → AppSpawnConnection}
    (hid : ∀ x, (f x).id = x.id) :
    (s.updateConnection c f).connectionOf c = (s.connectionOf c).map f := by
  unfold Server.connectionOf
  rw [Server.updateConnection_connections]
  induction s.connections with
  | nil => rfl
  | cons x xs ih =>
    by_cases hx : x.id = c
    · simp [hx, hid]
    · simp [hx, ih]

theorem connectionOf_closeTask : (closeTask s c).connectionOf c = none := by
  unfold closeTask Server.connectionOf
  exact List.find?_eq_none.mpr fun x hx => by simpa using (List.mem_filter.mp hx).2

theorem agrees_closeTask : (t.closeTask c).Agrees (closeTask s c) c where
  of_some conn hconn := by
    rw [connectionOf_closeTask] at hconn
    cases hconn
  of_none _ := by rw [Receivers.closeTask_receiver]

/-- A change on both sides. -/
theorem Receivers.Agrees.map (h : t.Agrees s c) {s' : Server} {t' : Receivers tl}
    {f : AppSpawnConnection → AppSpawnConnection} {g : Receiver tl.Handle → Receiver tl.Handle}
    (hs : s'.connectionOf c = (s.connectionOf c).map f)
    (ht : t'.receiver c = g (t.receiver c))
    (hmatches : ∀ x conn, Receiver.Matches x conn → (g x).Matches (f conn))
    (hopen : ∀ x, (g x).isOpen = x.isOpen) : t'.Agrees s' c where
  of_some conn' hconn' := by
    rw [hs] at hconn'
    obtain ⟨conn, hconn, rfl⟩ := Option.map_eq_some_iff.mp hconn'
    rw [ht]
    exact hmatches _ _ (h.of_some conn hconn)
  of_none hnone := by
    rw [hs, Option.map_eq_none_iff] at hnone
    rw [ht, hopen]
    exact h.of_none hnone

theorem Receivers.Agrees.congr (h : t.Agrees s c) {s' : Server}
    (hs : s'.connections = s.connections) : t.Agrees s' c where
  of_some conn hconn := by
    unfold Server.connectionOf at hconn
    rw [hs] at hconn
    exact h.of_some conn hconn
  of_none hnone := by
    unfold Server.connectionOf at hnone
    rw [hs] at hnone
    exact h.of_none hnone

/-- A message is complete. -/
theorem Receivers.Agrees.complete (h : t.Agrees s c) :
    ((t.update c fun x => { x with ctx := { x.ctx with msgRecvLen := 0 } }).stopTimer c).Agrees
      (s.updateConnection c AppSpawnConnection.complete) c := by
  refine h.map (connectionOf_updateConnection fun _ => rfl)
    (g := fun x => { x with ctx := { x.ctx with msgRecvLen := 0 }, timer := none }) ?_ ?_ fun _ => rfl
  · rw [Receivers.stopTimer_receiver, Receivers.receiver_update_self]
  · intro x conn hx
    refine ⟨hx.isOpen, ?_, rfl⟩
    show ({ x.ctx with msgRecvLen := 0 } : ReceiverCtx) = _
    rw [hx.ctx]
    rfl

/-- One round. -/
theorem Receivers.Agrees.runPiece (h : t.Agrees s c) (env : DispatchEnv) (held : Option NodeId)
    (r : Round) : (Receivers.runPiece c t r).Agrees (Appspawn.runPiece k lib env s c held r) c := by
  have htake : t.Agrees ((s.takeNode held).1.use (s.takeNode held).2) c := by
    refine h.congr ?_
    rw [Server.use_connections, connections_takeNode]
  unfold Receivers.runPiece Appspawn.runPiece
  cases hp : r.piece with
  | failed message =>
    dsimp only
    split
    · exact h
    · refine h.congr ?_
      rw [Server.deleteAppSpawnMsg_connections, connections_takeNode]
  | incomplete message =>
    dsimp only
    refine htake.map (g := fun x =>
        { x with ctx := { incompleteMsg := some message, msgRecvLen := r.msgRecvLen } })
      (connectionOf_updateConnection fun _ => rfl) (Receivers.receiver_update_self _) ?_ fun _ => rfl
    intro x conn hx
    exact ⟨hx.isOpen, rfl, hx.timer⟩
  | refused message => exact htake.complete
  | undecoded message => exact htake.complete.congr rfl
  | dispatched message =>
    exact htake.complete.congr (connections_processRecvMsg _ _ _ _)

theorem Receivers.Agrees.rounds (h : t.Agrees s c) (rs : List Round) (held : Option NodeId)
    (envs : List DispatchEnv) :
    (rs.foldl (Receivers.runPiece c) t).Agrees (runRounds k lib c s held rs envs) c := by
  induction rs generalizing s t held envs with
  | nil => exact h
  | cons r rs ih => exact ih (h.runPiece _ held r) none envs.tail

/-- `StartTimerForCheckMsg`, where a message is incomplete. -/
theorem Receivers.Agrees.startTimerForCheckMsg (h : t.Agrees s c) {env : ReceiveEnv}
    {renv : RecvEnv} (hcreate : renv.createTimer = env.createTimer)
    (hstart : renv.startTimer = env.startTimer) (hconn : s.connectionOf c = some conn) :
    (if (t.receiver c).ctx.incompleteMsg.isSome then
        Receivers.startTimerForCheckMsg maxWaitMsgComplete renv t c else t).Agrees
      (Appspawn.startTimerForCheckMsg env s c) c := by
  have hmatch := h.of_some conn hconn
  have hmsg : (t.receiver c).ctx.incompleteMsg.isSome = conn.incompleteMsg.isSome := by
    rw [hmatch.ctx]
    exact Option.isSome_map
  unfold Appspawn.startTimerForCheckMsg Receivers.startTimerForCheckMsg
  rw [show s.connections.find? (·.id == c) = some conn from hconn, hmsg, hcreate, hstart]
  dsimp only
  have htimer := hmatch.timer
  cases hm : conn.incompleteMsg with
  | none => exact h
  | some m =>
    cases ht : (t.receiver c).timer with
    | some timer =>
      rw [ht] at htimer
      rw [← htimer]
      exact h
    | none =>
      rw [ht] at htimer
      rw [← htimer]
      have hcreated : (t.createTimer c).Agrees
          (s.updateConnection c fun x => { x with timer := true }) c :=
        h.map (g := fun x => { x with timer := some (tl.create t.loop c).2 })
          (connectionOf_updateConnection fun _ => rfl) Receivers.createTimer_receiver
          (fun x conn hx => ⟨hx.isOpen, hx.ctx, rfl⟩) fun _ => rfl
      have hstarted : ((t.createTimer c).startTimer maxWaitMsgComplete c).Agrees
          (s.updateConnection c fun x => { x with timer := true }) c := by
        refine ⟨fun conn hconn => ?_, fun hnone => ?_⟩
        · rw [Receivers.startTimer_receiver]
          exact hcreated.of_some conn hconn
        · rw [Receivers.startTimer_receiver]
          exact hcreated.of_none hnone
      cases env.createTimer with
      | false => exact agrees_closeTask
      | true =>
        cases env.startTimer with
        | false => exact agrees_closeTask
        | true => exact hstarted

/-- **`OnReceiveRequest` does the same on the record of the server.** -/
theorem Receivers.Agrees.receiveRequest (h : t.Agrees s c) (hconn : s.connectionOf c = some conn)
    (shellUid : Nat) (env : ReceiveEnv) (buffer : List UInt8) :
    (t.onReceiveRequest lib maxWaitMsgComplete (env.recvEnv shellUid conn buffer) c buffer).Agrees
      (Appspawn.receiveRequest k lib shellUid env s conn buffer) c := by
  have hid : conn.id = c := by simpa using List.find?_some hconn
  subst hid
  have hctx := (h.of_some conn hconn).ctx
  unfold Receivers.onReceiveRequest Appspawn.receiveRequest
  by_cases hlen : buffer.length < lib.maxMsgTotalLength
  · rw [if_pos hlen, if_pos hlen]
    have hreceived : env.received lib shellUid conn buffer =
        afterLoop (t.receiver conn.id).ctx (Receivers.rounds lib (env.recvEnv shellUid conn buffer)
          (t.receiver conn.id).ctx buffer) := by
      rw [hctx, ReceiveEnv.received, Appspawn.onReceiveRequest, if_pos hlen]
      rfl
    rw [hreceived]
    dsimp only
    rw [afterLoop_rounds]
    have hdrop : (t.dropIncomplete conn.id).Agrees
        (s.updateConnection conn.id AppSpawnConnection.take) conn.id :=
      h.map (g := fun x => { x with ctx := { x.ctx with incompleteMsg := none } })
        (connectionOf_updateConnection fun _ => rfl) Receivers.dropIncomplete_receiver
        (fun x conn hx => ⟨hx.isOpen, by rw [hx.ctx]; rfl, hx.timer⟩) fun _ => rfl
    generalize Receivers.rounds lib (env.recvEnv shellUid conn buffer) (t.receiver conn.id).ctx
      buffer = rs
    have hrun : (rs.foldl (Receivers.runPiece conn.id) (t.dropIncomplete conn.id)).Agrees
        (runRounds k lib conn.id (s.updateConnection conn.id AppSpawnConnection.take)
          (conn.incompleteMsg.map (·.1)) rs env.dispatch) conn.id := hdrop.rounds rs _ _
    split
    · exact agrees_closeTask
    · cases hconn' : (runRounds k lib conn.id (s.updateConnection conn.id AppSpawnConnection.take)
          (conn.incompleteMsg.map (·.1)) rs env.dispatch).connectionOf conn.id with
      | none =>
        -- The record is still there.
        have hclosed := hrun.of_none hconn'
        rw [Receivers.isOpen_rounds, Receivers.dropIncomplete_receiver] at hclosed
        have hopen := (h.of_some conn hconn).isOpen
        rw [show (t.receiver conn.id).isOpen = false from hclosed] at hopen
        cases hopen
      | some conn' => exact hrun.startTimerForCheckMsg rfl rfl hconn'
  · rw [if_neg hlen, if_neg hlen]
    exact agrees_closeTask

end Agrees

end Appspawn
