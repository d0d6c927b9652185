import OpenHarmonyMac.InitService.Capabilities

/-!
# The permissions of a service

`SetPerms` gives the child process of a service the groups, the user and the capabilities of the
service, in this order and with a hook in front and behind.

* `capData_denotes` — what `capset` is called with
* `setPerms_returns` — the calls of `SetPerms`, and when it succeeds
* `permitted_iff` — when a success means that everything was done, the seccomp policy included
-/

namespace InitService

open Infra

/-! ## The words of `capset` -/

/-- `CAP_TO_MASK` -/
def capToMask (cap : Nat) : BitVec 32 := 1#32 <<< (cap % 32)

namespace CapData

/-- The same word in each set. -/
def all (word : BitVec 32) : CapData := ⟨word, word, word⟩

def grant (d : CapData) (mask : BitVec 32) : CapData :=
  ⟨d.effective ||| mask, d.permitted ||| mask, d.inheritable ||| mask⟩

end CapData

/-- The loop of `SetPerms` that fills `capData`. -/
def fillCapData (k : CapHeader) : List Nat → List CapData → List CapData
  | [], data => data
  | cap :: caps, data =>
    if cap = k.fullCap then data.map fun _ => CapData.all (BitVec.ofNat 32 k.fullCap)
    else fillCapData k caps (data.modify (cap / 32) (·.grant (capToMask cap)))

def ServPerm.capData {k : CapHeader} (p : ServPerm k) : List CapData :=
  fillCapData k p.caps (List.replicate k.capNum {})

/-! ## The steps -/

/-- How init was built. -/
structure SeccompBuild where
  withSeccomp : Bool
  maxCmdContentLen : Nat
deriving DecidableEq, Repr

def serviceSetGid {k : CapHeader} (sys : Answers) (p : ServPerm k) : ChildScript Unit :=
  match p.gIDArray with
  -- the user's number as the group's
  | [] => Script.check sys (.setgid p.uID) .egidset
  | gid :: gids => do
    Script.check sys (.setgid gid) .egidset
    if gids = [] then pure () else Script.check sys (.setgroups gids) .egidset

/-- The services for which `SetSystemSeccompPolicy` does something. -/
def NeedsSeccomp (b : SeccompBuild) (name : List Char) : Prop :=
  b.withSeccomp = true ∧ ¬ "appspawn".toList <+: name ∧ ¬ "nwebspawn".toList <+: name

instance (b : SeccompBuild) (name : List Char) : Decidable (NeedsSeccomp b name) :=
  inferInstanceAs (Decidable (_ ∧ _ ∧ _))

def setSystemSeccompPolicy (b : SeccompBuild) (name path : List Char) : ChildScript Unit :=
  if NeedsSeccomp b name then
    match sprintfS (b.maxCmdContentLen + 1) (name ++ [' ']) with
    | none => Script.leave .eseccomp
    | some cmdContent =>
      match sprintfS (b.maxCmdContentLen + 1) (cmdContent ++ path) with
      | none => Script.leave .eseccomp
      | some cmdContent => Script.call (.pluginExecCmdByName "SetSeccompPolicy" cmdContent)
  else pure ()

/-- The user, or for root the bounding set. -/
def setUser {k : CapHeader} (sys : Answers) (p : ServPerm k) : ChildScript Unit :=
  if p.uID ≠ 0 then Script.check sys (.setuid p.uID) .euidset
  else if p.caps ≠ [] then do
    let _ ← dropCapability sys p
    pure ()
  else pure ()

def setAmbientCapability (sys : Answers) (cap : Nat) : ChildScript Unit :=
  Script.check sys (.setAmbientCapability cap) .ecap

def setAllAmbientCapability (k : CapHeader) (sys : Answers) : ChildScript Unit :=
  Script.each (setAmbientCapability sys) (List.range (k.capLastCap + 1))

/-- The last loop of `SetPerms`. -/
def setAmbientCaps (k : CapHeader) (sys : Answers) : List Nat → ChildScript Unit
  | [] => pure ()
  | cap :: caps =>
    if cap = k.fullCap then do
      setAllAmbientCapability k sys
      -- This is the return of `SetPerms`.
      Script.leave .success
    else do
      setAmbientCapability sys cap
      setAmbientCaps k sys caps

/-- `SetPerms` up to the ambient capabilities. -/
def beginPerms {k : CapHeader} (b : SeccompBuild) (sys : Answers) (name path : List Char)
    (p : ServPerm k) : ChildScript Unit := do
  Script.call (.serviceHook .setPermsBefore (some path))
  Script.check sys .keepCapability .ekeepcap
  serviceSetGid sys p
  setSystemSeccompPolicy b name path
  setUser sys p
  Script.check sys (.capset p.capData) .failure

/-- `name` and `path` are the service's name and its first argument. -/
def setPerms {k : CapHeader} (b : SeccompBuild) (sys : Answers) (name path : List Char)
    (p : ServPerm k) : ChildScript Unit := do
  beginPerms b sys name path p
  setAmbientCaps k sys p.caps
  Script.call (.serviceHook .setPerms none)

/-! ## What is granted -/

/-- The bit of a capability in a row of words. -/
def capBit (words : List (BitVec 32)) (cap : Nat) : Bool :=
  (words.getD (cap / 32) 0).getLsbD (cap % 32)

namespace ServPerm

variable {k : CapHeader} (p : ServPerm k)

/-- The service is granted the capability. -/
def Grants (cap : Nat) : Prop :=
  if k.fullCap ∈ p.caps then cap ≤ k.capLastCap else cap ∈ p.caps

/-- The words name the capabilities in the list, and all bits when it holds `FULL_CAP`. -/
def Denotes (data : List CapData) : Prop :=
  ∃ words : List (BitVec 32), data = words.map CapData.all ∧ words.length = k.capNum ∧
    ∀ cap < 32 * k.capNum, capBit words cap = true ↔ k.fullCap ∈ p.caps ∨ cap ∈ p.caps

end ServPerm

section Words

variable {k : CapHeader} {words : List (BitVec 32)}

theorem getLsbD_capToMask (cap : Nat) {bit : Nat} (h : bit < 32) :
    (capToMask cap).getLsbD bit = true ↔ bit = cap % 32 := by
  simp [capToMask]
  omega

theorem modify_map_all (words : List (BitVec 32)) (i : Nat) (mask : BitVec 32) :
    (words.map CapData.all).modify i (·.grant mask) =
      (words.modify i (· ||| mask)).map CapData.all := by
  refine List.ext_getElem? fun j => ?_
  rw [List.getElem?_modify, List.getElem?_map, List.getElem?_map, List.getElem?_modify]
  cases words[j]? with
  | none => rfl
  | some word =>
    by_cases h : i = j
    · simp [h, CapData.all, CapData.grant]
    · simp [h]

/-- One capability is added. -/
theorem capBit_modify {c : Nat} (hc : c < 32 * words.length) (cap : Nat) :
    capBit (words.modify (c / 32) (· ||| capToMask c)) cap = true ↔
      capBit words cap = true ∨ cap = c := by
  have hbit : cap % 32 < 32 := Nat.mod_lt _ (by decide)
  unfold capBit
  rw [List.getD_eq_getElem?_getD, List.getD_eq_getElem?_getD, List.getElem?_modify]
  by_cases hi : c / 32 = cap / 32
  · have hin : cap / 32 < words.length := by omega
    rw [List.getElem?_eq_getElem hin]
    simp only [hi, if_true, Option.map_eq_map, Option.map_some, Option.getD_some,
      BitVec.getLsbD_or, Bool.or_eq_true, getLsbD_capToMask c hbit]
    refine or_congr_right ?_
    omega
  · have hne : cap ≠ c := by
      rintro rfl
      exact hi rfl
    simp [hi, hne]

/-- What the loop does to the words, by induction on the list. -/
theorem fillCapData_spec {caps : List Nat} (hcaps : ∀ c ∈ caps, c ≤ k.capLastCap ∨ c = k.fullCap)
    (hlen : words.length = k.capNum) :
    ∃ words', fillCapData k caps (words.map CapData.all) = words'.map CapData.all ∧
      words'.length = k.capNum ∧ ∀ cap < 32 * k.capNum,
        capBit words' cap = true ↔ capBit words cap = true ∨ k.fullCap ∈ caps ∨ cap ∈ caps := by
  induction caps generalizing words with
  | nil => exact ⟨words, rfl, hlen, by simp⟩
  | cons c caps ih =>
    by_cases hfull : c = k.fullCap
    · refine ⟨words.map fun _ => BitVec.ofNat 32 k.fullCap, ?_, by rw [List.length_map, hlen], ?_⟩
      · rw [fillCapData, if_pos hfull, List.map_map, List.map_map]
        rfl
      · intro cap hcap
        refine iff_of_true ?_ (Or.inr (Or.inl (by rw [hfull]; exact List.mem_cons_self)))
        have hin : cap / 32 < words.length := by omega
        have hbit : cap % 32 < 32 := Nat.mod_lt _ (by decide)
        rw [capBit, List.getD_eq_getElem?_getD, List.getElem?_map, List.getElem?_eq_getElem hin,
          k.fullCap_eq]
        simp only [Option.map_some, Option.getD_some, BitVec.getLsbD_ofNat,
          Nat.testBit_two_pow_sub_one, hbit, decide_true, Bool.and_self]
    · have hle : c ≤ k.capLastCap := (hcaps c List.mem_cons_self).resolve_right hfull
      have hroom : c < 32 * words.length := by
        rw [hlen]
        exact lt_of_le_of_lt hle k.capNum_large
      have hmodify : (words.modify (c / 32) (· ||| capToMask c)).length = k.capNum := by
        rw [List.length_modify, hlen]
      obtain ⟨words', heq, hlen', hbits⟩ :=
        ih (fun c' hc' => hcaps c' (List.mem_cons_of_mem _ hc')) hmodify
      refine ⟨words', by rw [fillCapData, if_neg hfull, modify_map_all, heq], hlen', ?_⟩
      intro cap hcap
      rw [hbits cap hcap, capBit_modify hroom, List.mem_cons, List.mem_cons]
      have hne : k.fullCap ≠ c := fun h => hfull h.symm
      tauto

end Words

/-- **`capset` gets the union of the listed capabilities.** -/
theorem capData_denotes {k : CapHeader} (p : ServPerm k) : p.Denotes p.capData := by
  have hzero : List.replicate k.capNum ({} : CapData) =
      (List.replicate k.capNum (0 : BitVec 32)).map CapData.all := by
    rw [List.map_replicate]
    rfl
  have hreplicate : (List.replicate k.capNum (0 : BitVec 32)).length = k.capNum :=
    List.length_replicate ..
  obtain ⟨words, heq, hlen, hbits⟩ := fillCapData_spec p.caps_le hreplicate
  refine ⟨words, by rw [ServPerm.capData, hzero, heq], hlen, fun cap hcap => ?_⟩
  rw [hbits cap hcap]
  refine or_iff_right ?_
  rw [capBit, List.getD_eq_getElem?_getD, List.getElem?_replicate]
  split
  · simp
  · simp

/-! ## The calls of `SetPerms` -/

/-- The answers that the child looks at. -/
def checked (sys : Answers) : Answers := fun past c =>
  match c with
  | .createSocketForService | .createServiceFile | .openConsole | .keepCapability | .setgid _
  | .setgroups _ | .setuid _ | .capset _ | .setAmbientCapability _ => sys past c
  | .publishHoldFds published => if published.ret = .ret 0 then 0 else 1
  | _ => 0

/-- An early return of the child that reports a failure. -/
def IsFailure (ret : ChildRet) : Prop := ret ≠ .success

/-- The calls that give a service its permissions. -/
def ChildCall.isPermission : ChildCall → Bool
  | .keepCapability | .setgid _ | .setgroups _ | .pluginExecCmdByName _ _ | .setuid _ | .capset _
  | .setAmbientCapability _ => true
  | _ => false

def seccompCalls (b : SeccompBuild) (name path : List Char) : List ChildCall :=
  if NeedsSeccomp b name then
    [.pluginExecCmdByName "SetSeccompPolicy" (name ++ ' ' :: path)]
  else []

namespace ServPerm

variable {k : CapHeader} (p : ServPerm k)

def gidCalls : List ChildCall :=
  match p.gIDArray with
  | [] => [.setgid p.uID]
  | gid :: gids => .setgid gid :: if gids = [] then [] else [.setgroups gids]

/-- What `DropCapability` calls. -/
def dropCalls (sys : Answers) (past : List ChildCall) : List ChildCall :=
  (dropCapability sys p past).2.drop past.length

def userCalls (sys : Answers) (past : List ChildCall) : List ChildCall :=
  if p.uID ≠ 0 then [.setuid p.uID] else if p.caps ≠ [] then p.dropCalls sys past else []

/-- The capabilities that are made ambient, in their order. -/
def ambientCaps : List Nat :=
  if k.fullCap ∈ p.caps then
    p.caps.takeWhile (· ≠ k.fullCap) ++ List.range (k.capLastCap + 1)
  else p.caps

/-- The calls of `SetPerms` before the seccomp policy. -/
def callsToGid (path : List Char) : List ChildCall :=
  .serviceHook .setPermsBefore (some path) :: .keepCapability :: p.gidCalls

/-- Those behind it, as far as the last hook. -/
def callsFromUser (sys : Answers) (past : List ChildCall) : List ChildCall :=
  p.userCalls sys past ++ .capset p.capData :: p.ambientCaps.map .setAmbientCapability

/-- All calls of `SetPerms` before the last hook, when no checked one fails. -/
def calls (b : SeccompBuild) (sys : Answers) (name path : List Char) (past : List ChildCall) :
    List ChildCall :=
  p.callsToGid path ++ (seccompCalls b name path ++
    p.callsFromUser sys (past ++ p.callsToGid path ++ seccompCalls b name path))

end ServPerm

/-- The name and the path fit into the command of the seccomp plug-in. -/
def SeccompFits (b : SeccompBuild) (name path : List Char) : Prop :=
  NeedsSeccomp b name → name.length + 1 + path.length ≤ b.maxCmdContentLen

section Follows

open Script

variable {k : CapHeader} {b : SeccompBuild} {sys : Answers} {name path : List Char}
  {p : ServPerm k}

/-- A call that the child checks. -/
theorem follows_check {c : ChildCall} {r : ChildRet} (hc : ∀ past, checked sys past c = sys past c)
    (hr : IsFailure r) : Follows (checked sys) IsFailure (check sys c r) fun _ => [c] :=
  Follows.check hc hr

variable (sys p) in
theorem serviceSetGid_follows :
    Follows (checked sys) IsFailure (serviceSetGid sys p) fun _ => p.gidCalls := by
  unfold serviceSetGid ServPerm.gidCalls
  cases p.gIDArray with
  | nil => exact follows_check (fun _ => rfl) (by simp [IsFailure])
  | cons gid gids =>
    have hgid : Follows (checked sys) IsFailure (check sys (.setgid gid) .egidset)
        fun _ => [.setgid gid] := follows_check (fun _ => rfl) (by simp [IsFailure])
    exact hgid.bind (Follows.ite (fun _ => Follows.pure)
      fun _ => follows_check (fun _ => rfl) (by simp [IsFailure]))

variable (sys) in
theorem setSystemSeccompPolicy_follows (h : SeccompFits b name path) :
    Follows (checked sys) IsFailure (setSystemSeccompPolicy b name path)
      fun _ => seccompCalls b name path := by
  unfold setSystemSeccompPolicy seccompCalls
  refine Follows.ite (fun hn => ?_) fun _ => Follows.pure
  have hfits := h hn
  rw [sprintfS_eq_some (by simp; omega)]
  dsimp only
  rw [sprintfS_eq_some (by simp; omega)]
  dsimp only
  rw [List.append_assoc]
  exact Follows.call fun _ => rfl

theorem setSystemSeccompPolicy_stops (h : ¬ SeccompFits b name path) :
    Stops IsFailure (setSystemSeccompPolicy b name path) := by
  obtain ⟨hn, hlong⟩ := Classical.not_imp.mp h
  have hleave : Stops IsFailure (leave .eseccomp : ChildScript Unit) :=
    fun past => ⟨.eseccomp, past, by simp [IsFailure], rfl⟩
  unfold setSystemSeccompPolicy
  rw [if_pos hn]
  split
  · exact hleave
  · next cmdContent hcmd =>
    rw [eq_of_sprintfS hcmd, sprintfS, if_neg (by simp; omega)]
    exact hleave

/-- A call in front of the last hook that takes no part in the outcome. -/
structure Aside (sys : Answers) (c : ChildCall) : Prop where
  noStep : c.isPermission = false
  unchecked : ∀ past, checked sys past c = 0
  ne_hook : c ≠ .serviceHook .setPerms none

theorem aside_capbsetDrop (cap : Nat) : Aside sys (.capbsetDrop cap) :=
  ⟨rfl, fun _ => rfl, by simp⟩

variable (sys) in
theorem dropCaps_aside (caps : List Nat) (past : List ChildCall) :
    ∃ new, dropCaps sys caps past = (.ok (), past ++ new) ∧ ∀ c ∈ new, Aside sys c := by
  induction caps generalizing past with
  | nil => exact ⟨[], by simp [dropCaps], by simp⟩
  | cons cap caps ih =>
    rw [dropCaps, ask_bind]
    by_cases hzero : sys past (.capbsetDrop cap) = 0
    · obtain ⟨new, heq, hnew⟩ := ih (past ++ [.capbsetDrop cap])
      refine ⟨.capbsetDrop cap :: new, by rw [if_pos hzero, heq, List.append_assoc]; rfl, ?_⟩
      exact List.forall_mem_cons.mpr ⟨aside_capbsetDrop cap, hnew⟩
    · refine ⟨[.capbsetDrop cap], by rw [if_neg hzero]; rfl, ?_⟩
      exact List.forall_mem_singleton.mpr (aside_capbsetDrop cap)

variable (sys p) in
/-- `DropCapability` always comes to its end, and nothing depends on its calls. -/
theorem dropCapability_aside (past : List ChildCall) :
    ∃ outside, dropCapability sys p past = (.ok outside, past ++ p.dropCalls sys past) ∧
      ∀ c ∈ p.dropCalls sys past, Aside sys c := by
  have hcalloc : Aside sys (.callocCaps p.invalidCnt) := ⟨rfl, fun _ => rfl, by simp⟩
  suffices h : ∃ outside new, dropCapability sys p past = (.ok outside, past ++ new) ∧
      ∀ c ∈ new, Aside sys c by
    obtain ⟨outside, new, heq, hnew⟩ := h
    have hcalls : p.dropCalls sys past = new := by
      rw [ServPerm.dropCalls, heq, List.drop_left]
    rw [hcalls]
    exact ⟨outside, heq, hnew⟩
  rw [dropCapability, ask_bind]
  split
  · obtain ⟨new, heq, hnew⟩ := dropCaps_aside sys
      (p.getInvalidCaps p.invalidCnt.toNat).1 (past ++ [.callocCaps p.invalidCnt])
    refine ⟨(p.getInvalidCaps p.invalidCnt.toNat).2, .callocCaps p.invalidCnt :: new, ?_,
      List.forall_mem_cons.mpr ⟨hcalloc, hnew⟩⟩
    dsimp only
    rw [bind_of_ok heq, List.append_assoc]
    rfl
  · exact ⟨false, [.callocCaps p.invalidCnt], rfl, List.forall_mem_singleton.mpr hcalloc⟩

theorem succeeds_of_aside {past cs : List ChildCall} (h : ∀ c ∈ cs, Aside sys c) :
    Succeeds (checked sys) past cs :=
  succeeds_of_forall fun c hc => (h c hc).unchecked

theorem setUser_follows :
    Follows (checked sys) IsFailure (setUser sys p) (p.userCalls sys) := by
  unfold setUser
  refine Follows.ite (fun _ => follows_check (fun _ => rfl) (by simp [IsFailure])) fun _ => ?_
  refine Follows.ite (fun _ => Follows.of_ok (fun past => ?_) fun past => ?_) fun _ => Follows.pure
  · obtain ⟨outside, heq, -⟩ := dropCapability_aside sys p past
    rw [bind_of_ok heq]
    rfl
  · obtain ⟨-, -, haside⟩ := dropCapability_aside sys p past
    exact succeeds_of_aside haside

theorem setAmbientCapability_follows (cap : Nat) :
    Follows (checked sys) IsFailure (setAmbientCapability sys cap)
      fun _ => [.setAmbientCapability cap] :=
  follows_check (fun _ => rfl) (by simp [IsFailure])

/-- The last loop sets the capabilities one by one, and returns when it has come across
`FULL_CAP`. -/
theorem setAmbientCaps_eq (caps : List Nat) :
    setAmbientCaps k sys caps =
      if k.fullCap ∈ caps then
        each (setAmbientCapability sys)
          (caps.takeWhile (· ≠ k.fullCap) ++ List.range (k.capLastCap + 1)) >>=
          fun _ => leave .success
      else each (setAmbientCapability sys) caps := by
  induction caps with
  | nil => simp [setAmbientCaps, each]
  | cons cap caps ih =>
    rw [setAmbientCaps]
    by_cases hfull : cap = k.fullCap
    · subst hfull
      rw [if_pos rfl, if_pos List.mem_cons_self, List.takeWhile_cons_of_neg (by simp)]
      rfl
    · have hne : k.fullCap ≠ cap := fun h => hfull h.symm
      rw [if_neg hfull, ih, List.takeWhile_cons_of_pos (by simpa using hfull)]
      by_cases hin : k.fullCap ∈ caps
      · rw [if_pos hin, if_pos (List.mem_cons_of_mem _ hin), List.cons_append, each, bind_assoc]
      · rw [if_neg hin, if_neg (by simp [hne, hin]), each]

/-- The only step among the calls for the user is `setuid`. -/
theorem filter_userCalls (past : List ChildCall) :
    (p.userCalls sys past).filter ChildCall.isPermission =
        (if p.uID ≠ 0 then [.setuid p.uID] else []) ∧
      ∀ c ∈ p.userCalls sys past, c.isPermission = true ∨ Aside sys c := by
  unfold ServPerm.userCalls
  split
  · exact ⟨rfl, fun c hc => Or.inl (by rw [List.mem_singleton.mp hc]; rfl)⟩
  · obtain ⟨-, -, haside⟩ := dropCapability_aside sys p past
    split
    · refine ⟨List.filter_eq_nil_iff.mpr fun c hc => ?_, fun c hc => Or.inr (haside c hc)⟩
      rw [(haside c hc).noStep]
      decide
    · exact ⟨rfl, by simp⟩

theorem isPermission_of_mem_gidCalls : ∀ c ∈ p.gidCalls, c.isPermission = true := by
  intro c hc
  unfold ServPerm.gidCalls at hc
  split at hc
  · rw [List.mem_singleton.mp hc]
    rfl
  · rcases List.mem_cons.mp hc with rfl | hc
    · rfl
    · split at hc
      · cases hc
      · rw [List.mem_singleton.mp hc]
        rfl

theorem isPermission_of_mem_seccompCalls :
    ∀ c ∈ seccompCalls b name path, c.isPermission = true := by
  intro c hc
  unfold seccompCalls at hc
  split at hc
  · rw [List.mem_singleton.mp hc]
    rfl
  · cases hc

end Follows

/-- The steps towards the permissions, up to the ambient capabilities. -/
def ServPerm.firstSteps {k : CapHeader} (b : SeccompBuild) (name path : List Char)
    (p : ServPerm k) (data : List CapData) : List ChildCall :=
  .keepCapability :: (p.gidCalls ++ (seccompCalls b name path ++
    ((if p.uID ≠ 0 then [.setuid p.uID] else []) ++ [.capset data])))

section Perms

open Script

variable {k : CapHeader} {b : SeccompBuild} {sys : Answers} {name path : List Char}
  {p : ServPerm k}

/-- `SetPerms` without what it does at its end. -/
def permsBody (b : SeccompBuild) (sys : Answers) (name path : List Char) (p : ServPerm k) :
    ChildScript Unit :=
  beginPerms b sys name path p >>= fun _ => each (setAmbientCapability sys) p.ambientCaps

variable (sys p) in
theorem permsBody_follows (h : SeccompFits b name path) :
    Follows (checked sys) IsFailure (permsBody b sys name path p) (p.calls b sys name path) := by
  have hhook : Follows (checked sys) IsFailure (call (.serviceHook .setPermsBefore (some path)))
      fun _ => [.serviceHook .setPermsBefore (some path)] := Follows.call fun _ => rfl
  have hkeep : Follows (checked sys) IsFailure (check sys .keepCapability .ekeepcap)
      fun _ => [.keepCapability] := follows_check (fun _ => rfl) (by simp [IsFailure])
  have hcapset : Follows (checked sys) IsFailure (check sys (.capset p.capData) .failure)
      fun _ => [.capset p.capData] := follows_check (fun _ => rfl) (by simp [IsFailure])
  have heach : Follows (checked sys) IsFailure (each (setAmbientCapability sys) p.ambientCaps)
      fun _ => p.ambientCaps.flatMap fun cap => [.setAmbientCapability cap] :=
    Follows.each _ fun cap _ => setAmbientCapability_follows cap
  have huser : Follows (checked sys) IsFailure (setUser sys p) (p.userCalls sys) := setUser_follows
  have hbegin := hhook.bind (hkeep.bind ((serviceSetGid_follows sys p).bind
    ((setSystemSeccompPolicy_follows sys h).bind (huser.bind hcapset))))
  refine (hbegin.bind heach).congr fun past => ?_
  simp [ServPerm.calls, ServPerm.callsToGid, ServPerm.callsFromUser, List.map_eq_flatMap]

/-- The steps among the calls, in their order. -/
theorem filter_calls (past : List ChildCall) :
    (p.calls b sys name path past).filter ChildCall.isPermission =
      p.firstSteps b name path p.capData ++ p.ambientCaps.map .setAmbientCapability := by
  have hambient : (p.ambientCaps.map ChildCall.setAmbientCapability).filter
      ChildCall.isPermission = p.ambientCaps.map .setAmbientCapability :=
    List.filter_eq_self.mpr (List.forall_mem_map.mpr fun _ _ => rfl)
  have hgid : p.gidCalls.filter ChildCall.isPermission = p.gidCalls :=
    List.filter_eq_self.mpr isPermission_of_mem_gidCalls
  have hseccomp : (seccompCalls b name path).filter ChildCall.isPermission =
      seccompCalls b name path := List.filter_eq_self.mpr isPermission_of_mem_seccompCalls
  simp only [ServPerm.calls, ServPerm.callsToGid, ServPerm.callsFromUser, ServPerm.firstSteps,
    List.filter_append, List.filter_cons, ChildCall.isPermission, hgid, hseccomp, hambient,
    (filter_userCalls _).1, List.append_assoc, List.cons_append, List.nil_append, if_true,
    Bool.false_eq_true, if_false]

/-- The others take no part in the outcome. -/
theorem step_or_aside_of_mem_calls {past : List ChildCall} :
    ∀ c ∈ p.calls b sys name path past, c.isPermission = true ∨ Aside sys c := by
  have hhook : Aside sys (.serviceHook .setPermsBefore (some path)) :=
    ⟨rfl, fun _ => rfl, by simp⟩
  simp only [ServPerm.calls, ServPerm.callsToGid, ServPerm.callsFromUser, List.forall_mem_append,
    List.forall_mem_cons, List.forall_mem_map]
  exact ⟨⟨Or.inr hhook, Or.inl rfl, fun c hc => Or.inl (isPermission_of_mem_gidCalls c hc)⟩,
    fun c hc => Or.inl (isPermission_of_mem_seccompCalls c hc), (filter_userCalls _).2,
    Or.inl rfl, fun _ _ => Or.inl rfl⟩

/-- At the end the hook runs, unless the list holds `FULL_CAP`. -/
theorem setPerms_eq : setPerms b sys name path p =
    permsBody b sys name path p >>= fun _ =>
      if k.fullCap ∈ p.caps then leave .success else call (.serviceHook .setPerms none) := by
  rw [setPerms, permsBody, bind_assoc, setAmbientCaps_eq, ServPerm.ambientCaps]
  split
  · simp only [bind_assoc, leave_bind]
  · rfl

theorem mem_ambientCaps (cap : Nat) : cap ∈ p.ambientCaps ↔ p.Grants cap := by
  unfold ServPerm.ambientCaps ServPerm.Grants
  split
  · rw [List.mem_append, List.mem_range, Nat.lt_succ_iff]
    refine or_iff_right_of_imp fun hcap => ?_
    have hne : cap ≠ k.fullCap := by simpa using List.mem_takeWhile_imp hcap
    exact (p.caps_le cap ((List.takeWhile_prefix _).subset hcap)).resolve_right hne
  · exact Iff.rfl

/-- The answers that tell whether the permissions are set: those that the child looks at, and that
of the seccomp plug-in, which it does not look at. -/
def outcomes (sys : Answers) : Answers := fun past c =>
  match c with
  | .pluginExecCmdByName _ _ => sys past c
  | _ => checked sys past c

/-- What the child has done with the calls `new` when its permissions are set. -/
structure Permitted (b : SeccompBuild) (sys : Answers) (name path : List Char) (p : ServPerm k)
    (past new : List ChildCall) : Prop where
  succeeds : Succeeds (outcomes sys) past new
  /-- The steps in their order: those before `capset`, `capset` and the ambient capabilities. -/
  order : ∃ (data : List CapData) (ambient : List Nat), new.filter ChildCall.isPermission =
      p.firstSteps b name path data ++ ambient.map .setAmbientCapability ∧
    p.Denotes data ∧ ∀ cap, cap ∈ ambient ↔ p.Grants cap
  hooked : .serviceHook .setPerms none ∈ new

/-- No step that `SetPerms` checks fails. -/
def StepsSucceed (b : SeccompBuild) (sys : Answers) (name path : List Char) (p : ServPerm k)
    (past : List ChildCall) : Prop :=
  SeccompFits b name path ∧ Succeeds (checked sys) past (p.calls b sys name path past)

/-- The seccomp plug-in, if it is called, applies the policy. -/
def SeccompApplied (b : SeccompBuild) (sys : Answers) (name path : List Char) (p : ServPerm k)
    (past : List ChildCall) : Prop :=
  ∀ c ∈ seccompCalls b name path, sys (past ++ p.callsToGid path) c = 0

/-- When the command of the plug-in does not fit, `SetPerms` fails. -/
theorem setPerms_fails (h : ¬ SeccompFits b name path) (past calls : List ChildCall) :
    (setPerms b sys name path p).returns .success past ≠ (.success, calls) := by
  have hstops : Stops IsFailure (setPerms b sys name path p) := by
    have hseccomp := (setSystemSeccompPolicy_stops h).bind fun _ =>
      setUser sys p >>= fun _ => check sys (.capset p.capData) .failure
    have hgid := (serviceSetGid_follows sys p).bind_stops hseccomp
    have hkeep : Follows (checked sys) IsFailure (check sys .keepCapability .ekeepcap)
        fun _ => [.keepCapability] := follows_check (fun _ => rfl) (by simp [IsFailure])
    have hhook : Follows (checked sys) IsFailure
        (call (.serviceHook .setPermsBefore (some path))) fun _ => _ := Follows.call fun _ => rfl
    exact (hhook.bind_stops (hkeep.bind_stops hgid)).bind _
  obtain ⟨r, calls', hr, heq⟩ := hstops past
  rw [returns, heq]
  exact fun heq' => hr (Prod.mk.inj heq').1

variable (b sys name path p) in
/-- **What `SetPerms` calls and when it succeeds.** -/
theorem setPerms_returns (past calls : List ChildCall) :
    (setPerms b sys name path p).returns .success past = (.success, calls) ↔
      StepsSucceed b sys name path p past ∧
        calls = past ++ (p.calls b sys name path past ++
          if k.fullCap ∈ p.caps then [] else [.serviceHook .setPerms none]) := by
  unfold StepsSucceed
  by_cases hfits : SeccompFits b name path
  · rw [and_iff_right hfits, setPerms_eq, returns]
    rcases permsBody_follows sys p hfits past with ⟨hs, heq⟩ | ⟨hs, r, pre, hr, -, heq⟩
    · rw [bind_of_ok heq, and_iff_right hs]
      by_cases hfull : k.fullCap ∈ p.caps
      · simp [hfull, leave, eq_comm]
      · simp [hfull, call, eq_comm]
    · rw [bind_of_error heq]
      refine iff_of_false (fun heq' => ?_) fun hc => hs hc.1
      exact hr (Prod.mk.inj heq').1
  · exact iff_of_false (setPerms_fails hfits past calls) fun hc => hfits hc.1.1

/-- Calls other than that of a plug-in have the answers that the child looks at. -/
theorem succeeds_outcomes_of_ne {before cs : List ChildCall}
    (h : ∀ c ∈ cs, ∀ plugin content, c ≠ .pluginExecCmdByName plugin content) :
    Succeeds (outcomes sys) before cs ↔ Succeeds (checked sys) before cs := by
  refine succeeds_congr fun c hc past => ?_
  cases c with
  | pluginExecCmdByName plugin content => exact absurd rfl (h _ hc plugin content)
  | _ => rfl

theorem ne_plugin_of_mem_gidCalls : ∀ c ∈ p.gidCalls, ∀ plugin content,
    c ≠ .pluginExecCmdByName plugin content := by
  intro c hc plugin content
  unfold ServPerm.gidCalls at hc
  split at hc
  · rw [List.mem_singleton.mp hc]
    simp
  · rcases List.mem_cons.mp hc with rfl | hc
    · simp
    · split at hc
      · cases hc
      · rw [List.mem_singleton.mp hc]
        simp

theorem ne_plugin_of_mem_userCalls {past : List ChildCall} : ∀ c ∈ p.userCalls sys past,
    ∀ plugin content, c ≠ .pluginExecCmdByName plugin content := by
  rintro c hc plugin content rfl
  have hstep : .pluginExecCmdByName plugin content ∈
      (p.userCalls sys past).filter ChildCall.isPermission := List.mem_filter.mpr ⟨hc, rfl⟩
  rw [(filter_userCalls past).1] at hstep
  split at hstep
  · cases List.mem_singleton.mp hstep
  · cases hstep

/-- Everything is applied when the steps that `SetPerms` checks succeed and the seccomp policy is
applied. -/
theorem succeeds_outcomes_iff (past : List ChildCall) :
    Succeeds (outcomes sys) past (p.calls b sys name path past) ↔
      Succeeds (checked sys) past (p.calls b sys name path past) ∧
        SeccompApplied b sys name path p past := by
  have hgid : ∀ c ∈ p.callsToGid path, ∀ plugin content,
      c ≠ .pluginExecCmdByName plugin content :=
    List.forall_mem_cons.mpr ⟨by simp, List.forall_mem_cons.mpr ⟨by simp,
      ne_plugin_of_mem_gidCalls⟩⟩
  have huser : ∀ past, ∀ c ∈ p.callsFromUser sys past, ∀ plugin content,
      c ≠ .pluginExecCmdByName plugin content := by
    intro past
    refine List.forall_mem_append.mpr ⟨ne_plugin_of_mem_userCalls, ?_⟩
    exact List.forall_mem_cons.mpr ⟨by simp, List.forall_mem_map.mpr (by simp)⟩
  have hplugin : Succeeds (outcomes sys) (past ++ p.callsToGid path) (seccompCalls b name path) ↔
      SeccompApplied b sys name path p past := by
    unfold SeccompApplied seccompCalls
    split
    · rw [succeeds_singleton, List.forall_mem_singleton]
      rfl
    · simp [succeeds_nil]
  have hunchecked : Succeeds (checked sys) (past ++ p.callsToGid path)
      (seccompCalls b name path) := by
    unfold seccompCalls
    split
    · exact succeeds_singleton.mpr rfl
    · exact succeeds_nil
  unfold ServPerm.calls
  rw [succeeds_append, succeeds_append, succeeds_append, succeeds_append,
    succeeds_outcomes_of_ne hgid, succeeds_outcomes_of_ne (huser _), hplugin]
  tauto

end Perms

/-- **When a success of `SetPerms` means that everything was done.** Just in case no step that it
checks fails only if `FULL_CAP` is not listed and the seccomp policy is applied. -/
theorem permitted_iff {k : CapHeader} (b : SeccompBuild) (sys : Answers) (name path : List Char)
    (p : ServPerm k) (past : List ChildCall) :
    (∀ calls, (setPerms b sys name path p).returns .success past = (.success, calls) →
        ∃ new, calls = past ++ new ∧ Permitted b sys name path p past new) ↔
      (StepsSucceed b sys name path p past →
        k.fullCap ∉ p.caps ∧ SeccompApplied b sys name path p past) := by
  constructor
  · intro hall hsteps
    obtain ⟨new, heq, hnew⟩ := hall _ ((setPerms_returns b sys name path p past _).mpr
      ⟨hsteps, rfl⟩)
    obtain rfl := List.append_cancel_left heq
    refine ⟨fun hfull => ?_, ?_⟩
    · have hhook := hnew.hooked
      rw [if_pos hfull, List.append_nil] at hhook
      rcases step_or_aside_of_mem_calls _ hhook with hperm | haside
      · cases hperm
      · exact haside.ne_hook rfl
    · exact ((succeeds_outcomes_iff past).mp (succeeds_append.mp hnew.succeeds).1).2
  · intro hcond calls hrun
    obtain ⟨hsteps, rfl⟩ := (setPerms_returns b sys name path p past calls).mp hrun
    obtain ⟨hfull, hseccomp⟩ := hcond hsteps
    rw [if_neg hfull]
    refine ⟨_, rfl, ⟨?_, ⟨p.capData, p.ambientCaps, ?_, capData_denotes p, mem_ambientCaps⟩, ?_⟩⟩
    · refine succeeds_append.mpr ⟨?_, succeeds_singleton.mpr rfl⟩
      exact (succeeds_outcomes_iff past).mpr ⟨hsteps.2, hseccomp⟩
    · rw [List.filter_append, filter_calls]
      simp [ChildCall.isPermission]
    · simp

/-- A service that lists `FULL_CAP`. -/
def fullCapService : ServPerm linuxCaps := ⟨1000, [1000], [0xFFFFFFFF], by decide, by decide⟩

/-- It starts without the hook, when all its calls succeed. -/
theorem fullCap_hook_missed :
    ¬ ∀ calls,
      (setPerms ⟨false, 0⟩ (fun _ _ => 0) "hold".toList "/system/bin/hold".toList
          fullCapService).returns .success [] = (.success, calls) →
        ∃ new, calls = [] ++ new ∧ Permitted ⟨false, 0⟩ (fun _ _ => 0) "hold".toList
          "/system/bin/hold".toList fullCapService [] new := by
  intro hall
  obtain ⟨new, heq, hnew⟩ := hall _ rfl
  have hcalls : _ = new := heq
  have hhook := hnew.hooked
  rw [← hcalls] at hhook
  revert hhook
  decide

end InitService
