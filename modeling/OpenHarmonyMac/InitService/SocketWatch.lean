import OpenHarmonyMac.InitService.Service

/-!
# The sockets of an on-demand service

When an on-demand service is reaped, `CheckServiceSocket` has its sockets watched, so that the next
connection starts the service again. The loop moves on at two places.

* `watchesValid_iff` — when exactly the sockets with a descriptor are watched
* `State.calls_checkOndemandService` — who calls it
-/

namespace InitService

/-! ## The loop -/

/-- A node of the list `socketCfg`. -/
structure ServiceSocket where
  name : List Char
  sockFd : Int
  /-- The address of the member of this name. -/
  watcher : Nat
deriving DecidableEq, Repr

/-- A call of `AddSocketWatcher`. -/
structure SocketWatch where
  watcher : Nat
  sockFd : Int
deriving DecidableEq, Repr

def ServiceSocket.watch (s : ServiceSocket) : SocketWatch := ⟨s.watcher, s.sockFd⟩

/-- The calls of `AddSocketWatcher`, `none` where the end of the list is read as a socket. -/
def checkServiceSocket : List ServiceSocket → Option (List SocketWatch)
  | [] => some []
  | tmpSock :: next =>
    if tmpSock.sockFd ≤ 0 then
      -- The next node is taken as it comes: it may be NULL, or another invalid socket.
      match next with
      | [] => none
      | tmpSock :: next => (checkServiceSocket next).map (tmpSock.watch :: ·)
    else (checkServiceSocket next).map (tmpSock.watch :: ·)

/-! ## What the loop is for -/

/-- The sockets that have a descriptor. -/
def validSockets (sockets : List ServiceSocket) : List ServiceSocket :=
  sockets.filter fun s => 0 < s.sockFd

/-- The valid sockets are watched, each once, and the loop stays in the list. -/
def WatchesValid (sockets : List ServiceSocket) : Prop :=
  ∃ calls, checkServiceSocket sockets = some calls ∧
    calls.Perm ((validSockets sockets).map ServiceSocket.watch)

/-- The next socket after an invalid one is there, and valid. -/
def InvalidApart (sockets : List ServiceSocket) : Prop :=
  ∀ before s after, sockets = before ++ s :: after → s.sockFd ≤ 0 →
    ∃ s' ∈ after.head?, 0 < s'.sockFd

/-! ## One round -/

variable {s s' : ServiceSocket} {rest : List ServiceSocket}

theorem validSockets_cons_of_valid (hs : 0 < s.sockFd) :
    validSockets (s :: rest) = s :: validSockets rest :=
  List.filter_cons_of_pos (by simpa using hs)

theorem validSockets_cons_of_invalid (hs : s.sockFd ≤ 0) :
    validSockets (s :: rest) = validSockets rest :=
  List.filter_cons_of_neg (by simpa using hs)

theorem InvalidApart.tail (h : InvalidApart (s :: rest)) : InvalidApart rest := by
  rintro before s' after rfl hs'
  exact h (s :: before) s' after rfl hs'

theorem invalidApart_cons_of_valid (hs : 0 < s.sockFd) :
    InvalidApart (s :: rest) ↔ InvalidApart rest := by
  refine ⟨InvalidApart.tail, fun h before s' after heq hs' => ?_⟩
  cases before with
  | nil =>
    obtain ⟨rfl, -⟩ := List.cons.inj heq
    exact absurd hs' (by omega)
  | cons s'' before =>
    obtain ⟨-, rfl⟩ := List.cons.inj heq
    exact h before s' after rfl hs'

theorem invalidApart_cons_of_invalid (hs : s.sockFd ≤ 0) :
    InvalidApart (s :: rest) ↔ (∃ s' ∈ rest.head?, 0 < s'.sockFd) ∧ InvalidApart rest := by
  refine ⟨fun h => ⟨h [] s rest rfl hs, h.tail⟩, ?_⟩
  rintro ⟨hnext, hrest⟩ before s' after heq hs'
  cases before with
  | nil =>
    obtain ⟨rfl, rfl⟩ := List.cons.inj heq
    exact hnext
  | cons s'' before =>
    obtain ⟨-, rfl⟩ := List.cons.inj heq
    exact hrest before s' after rfl hs'

/-- The loop watches a valid socket and goes on behind it. -/
theorem checkServiceSocket_valid (hs : 0 < s.sockFd) :
    checkServiceSocket (s :: rest) = (checkServiceSocket rest).map (s.watch :: ·) := by
  rw [checkServiceSocket.eq_def]
  exact if_neg (by omega)

/-- Behind an invalid socket the loop watches the next one, whatever it is. -/
theorem checkServiceSocket_invalid (hs : s.sockFd ≤ 0) :
    checkServiceSocket (s :: s' :: rest) = (checkServiceSocket rest).map (s'.watch :: ·) := by
  rw [checkServiceSocket.eq_def]
  exact if_pos hs

theorem checkServiceSocket_last (hs : s.sockFd ≤ 0) : checkServiceSocket [s] = none := by
  rw [checkServiceSocket.eq_def]
  exact if_pos hs

/-! ## The law -/

/-- A first watch that is due leaves the rest to the rest of the loop. -/
theorem watches_cons {calls : Option (List SocketWatch)} {due : List SocketWatch} {w : SocketWatch} :
    (∃ cs, calls.map (w :: ·) = some cs ∧ cs.Perm (w :: due)) ↔
      ∃ cs, calls = some cs ∧ cs.Perm due := by
  cases calls with
  | none => simp
  | some cs => simp [List.perm_cons]

/-- **When the sockets are watched.** Exactly the sockets with a descriptor are, just in case each
invalid socket of the list is followed by a valid one. -/
theorem watchesValid_iff (sockets : List ServiceSocket) :
    WatchesValid sockets ↔ InvalidApart sockets := by
  fun_induction checkServiceSocket sockets with
  | case1 =>
    refine iff_of_true ⟨[], rfl, List.Perm.refl []⟩ ?_
    intro before s after heq
    simp at heq
  | case2 s hs =>
    rw [invalidApart_cons_of_invalid hs]
    refine iff_of_false ?_ (by simp)
    rintro ⟨calls, hcalls, -⟩
    rw [checkServiceSocket_last hs] at hcalls
    cases hcalls
  | case3 s hs s' rest ih =>
    rw [invalidApart_cons_of_invalid hs, WatchesValid, checkServiceSocket_invalid hs,
      validSockets_cons_of_invalid hs]
    by_cases hs' : 0 < s'.sockFd
    · rw [invalidApart_cons_of_valid hs', ← ih, validSockets_cons_of_valid hs', List.map_cons,
        watches_cons, and_iff_right ⟨s', rfl, hs'⟩]
      rfl
    · -- the next socket is invalid as well, and it is watched
      refine iff_of_false ?_ (by simp [hs'])
      rintro ⟨calls, hcalls, hperm⟩
      obtain ⟨cs, -, rfl⟩ := Option.map_eq_some_iff.mp hcalls
      obtain ⟨s'', hmem, hwatch⟩ := List.mem_map.mp (hperm.subset List.mem_cons_self)
      have hvalid : 0 < s''.sockFd := by simpa using (List.mem_filter.mp hmem).2
      have hfd : s''.sockFd = s'.sockFd := congrArg SocketWatch.sockFd hwatch
      exact hs' (by rwa [hfd] at hvalid)
  | case4 s rest hs ih =>
    have hs : 0 < s.sockFd := by omega
    rw [invalidApart_cons_of_valid hs, ← ih, WatchesValid, checkServiceSocket_valid hs,
      validSockets_cons_of_valid hs, List.map_cons, watches_cons]
    rfl

/-- A service with one socket, which could not be created. -/
theorem single_invalid_socket_outside : ¬ WatchesValid [⟨"foo".toList, -1, 1⟩] := by
  rintro ⟨calls, hcalls, -⟩
  cases hcalls

/-! ## Who calls it -/

/-- `CheckOndemandService` has the sockets checked once, and first. -/
theorem State.calls_checkOndemandService {pf : Platform} (m : State pf) (env : ReapEnv) :
    (m.checkOndemandService env).calls = m.calls ++ .checkServiceSocket ::
      if m.service.name = "console" then [.watchConsoleDevice] else [] := by
  unfold checkOndemandService
  by_cases hname : m.service.name = "console"
  · rw [if_pos hname]
    by_cases hwatch : env.watchConsoleDevice < 0
    · simp [hname, hwatch]
    · simp [hname, hwatch]
  · simp [hname]

end InitService
