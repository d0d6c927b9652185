import OpenHarmonyMac.InitService.Permissions

/-!
# The child process of a service

After the fork of `ServiceStart` the child prepares itself (`InitServiceProperties`) and becomes the
service (`ServiceExec`), or exits.

* `runChildProcess_spec` — what the child does when all checked steps succeed, and when one fails
* `noUnpreparedExec_iff` — when the child executes the service only after all the preparation
-/

namespace InitService

open Infra

/-! ## Data -/

/-- What the child process reads of its service. -/
structure ChildService (k : CapHeader) where
  name : List Char
  /-- `service->pathArgs.argv[0]` -/
  servicePath : List Char
  servPerm : ServPerm k
  /-- `service->context.type` is another than `INIT_CONTEXT_MAIN`. -/
  subContext : Bool := false
  withoutSandbox : Bool := false
  console : Bool := false
  kmsg : Bool := false
  ondemand : Bool := false
  tokenId : Nat := 0
  env : List (List Char × List Char) := []
  onStart : Option String := none
  fds : HeldFds := {}
  /-- `service->cpuSet` names a core. -/
  cpuSet : Bool := false
  /-- `service->writePidArgs`, with NULL among them. -/
  writePidArgs : List (Option (List Char)) := []
  importance : Int := 0

/-- A node of the list of on-demand sockets. -/
structure OnDemandNode where
  /-- It belongs to the service of the child. -/
  own : Bool
  sockFds : List Int

/-- What the child process finds outside its service. -/
structure ChildHost where
  build : SeccompBuild
  fdHolder : FdHolder
  /-- `g_enableSandbox` -/
  enableSandbox : Bool := false
  onDemandSockets : List OnDemandNode := []
  /-- What `dup` answers while the descriptors are published, and then `setenv`. -/
  dup : Nat → Int → Int := fun _ fd => fd
  setenv : Int := 0
  getRealPath : List Char → Option (List Char) := fun _ => none
  childPid : Int := 1

/-! ## The steps -/

variable {k : CapHeader}

/-- The sandbox that the rest of `SetServiceEnterSandbox` is about. -/
def sandboxFor (h : ChildHost) (svc : ChildService k) (execPath : List Char) : Option String :=
  if svc.withoutSandbox then none
  else if h.enableSandbox = false then none
  else if "/system/bin/".toList.isPrefixOf execPath then some "system"
  else if "/vendor/bin/".toList.isPrefixOf execPath then some "chipset"
  else none

/-- `SetServiceEnterSandbox`: its first statement is `return 0`, and the rest is never reached. -/
def setServiceEnterSandbox (_h : ChildHost) (_svc : ChildService k) (_execPath : List Char) :
    ChildScript Int :=
  pure 0

def setServiceEnv (svc : ChildService k) : ChildScript Unit :=
  Script.each (fun e : List Char × List Char =>
    Script.doIf (e.1 ≠ [] ∧ e.2 ≠ []) (Script.call (.setenv e.1 e.2))) svc.env

def doStartJob (svc : ChildService k) : ChildScript Unit :=
  match svc.onStart with
  | none => pure ()
  | some job => Script.call (.doJobNow job)

def clearEnvironment (svc : ChildService k) : ChildScript Unit :=
  Script.doIf (svc.name ≠ "appspawn".toList ∧ svc.name ≠ "nwebspawn".toList)
    (Script.call .unblockSignals)

/-- What the child publishes of the descriptors held. -/
def publishedFds (h : ChildHost) (svc : ChildService k) : Published :=
  svc.fds.publishHoldFds h.fdHolder svc.name h.dup h.setenv

/-- `PublishHoldFds` and the check of its result. -/
def publishFds (h : ChildHost) (svc : ChildService k) : ChildScript Unit :=
  Script.check (fun _ _ => if (publishedFds h svc).ret = .ret 0 then 0 else 1)
    (.publishHoldFds (publishedFds h svc)) .eholder

/-- `BindCpuCore`, whose failure is only logged. -/
def bindCpuCore (svc : ChildService k) : ChildScript Unit :=
  Script.doIf svc.cpuSet (Script.call .schedSetaffinity)

/-- The path that `WritePid` opens. -/
def ChildHost.pidPath (h : ChildHost) (path : List Char) : List Char :=
  (h.getRealPath path).getD path

/-- One round of the loop of `WritePid`. Its `fclose`, in which the buffered number is written, is
left out. -/
def writePidFile (h : ChildHost) (sys : Answers) (arg : Option (List Char)) : ChildScript Unit :=
  match arg with
  | none => pure ()
  | some path => do
    let ret ← Script.ask sys (.fopen (h.pidPath path))
    Script.doIf (ret = 0) (Script.call (.fprintf (h.pidPath path) h.childPid))

/-- `WritePid`, which returns success whatever happens to the files. -/
def writePid (h : ChildHost) (sys : Answers) (svc : ChildService k) : ChildScript Unit :=
  Script.each (writePidFile h sys) svc.writePidArgs

/-- `InitServiceProperties` up to the pid files. -/
def beginProperties (h : ChildHost) (sys : Answers) (svc : ChildService k)
    (execPath : List Char) : ChildScript Unit := do
  -- A failure to enter the sandbox or to set the token is only kept in `lastErrno`.
  let _ ← setServiceEnterSandbox h svc execPath
  Script.call (.setAccessToken svc.tokenId)
  setServiceEnv svc
  doStartJob svc
  clearEnvironment svc
  Script.doIf (¬ svc.ondemand) (Script.check sys .createSocketForService .esocket)
  Script.call .setSocketEnvForService
  Script.check sys .createServiceFile .efile
  Script.doIf svc.console (Script.check sys .openConsole .econsole)
  Script.doIf svc.kmsg (Script.call .openKmsg)
  publishFds h svc
  bindCpuCore svc

def initServiceProperties (h : ChildHost) (sys : Answers) (svc : ChildService k)
    (execPath : List Char) : ChildScript Unit := do
  beginProperties h sys svc execPath
  writePid h sys svc
  Script.sub (setPerms h.build sys svc.name svc.servicePath svc.servPerm) .success
  Script.call (.pluginExecCmdByName "setServiceContent" svc.name)

def closeOnDemandServiceFdForOtherService (h : ChildHost) : ChildScript Unit :=
  Script.each (fun node : OnDemandNode =>
    Script.doIf (¬ node.own) (Script.each (fun fd => Script.call (.close fd)) node.sockFds))
    h.onDemandSockets

/-- `RunChildProcess` up to `ServiceExec`. -/
def prepareChild (h : ChildHost) (sys : Answers) (svc : ChildService k) (execPath : List Char) :
    ChildScript Unit := do
  Script.doIf svc.subContext (Script.call .setSubInitContext)
  closeOnDemandServiceFdForOtherService h
  initServiceProperties h sys svc execPath

def serviceExec (sys : Answers) (svc : ChildService k) (execPath : List Char) :
    ChildScript Unit := do
  Script.call .serviceExec
  Script.doIf (svc.importance ≠ 0) (Script.check sys (.setpriority svc.importance) .epriority)
  Script.call .openHidebug
  Script.check sys (.execv execPath) .eexec

/-- `RunChildProcess`: all calls of the child. Nothing comes behind an `execv` that succeeds. -/
def runChildProcess (h : ChildHost) (sys : Answers) (svc : ChildService k)
    (execPath : List Char) : List ChildCall :=
  match (prepareChild h sys svc execPath >>= fun _ => serviceExec sys svc execPath) [] with
  | (.ok (), calls) => calls
  | (.error ret, calls) => calls ++ [.exit ret]

/-! ## What has to come before `ServiceExec` -/

/-- The call was made and succeeded. -/
def Done (sys : Answers) (calls : List ChildCall) (c : ChildCall) : Prop :=
  ∃ before after, calls = before ++ c :: after ∧ sys before c = 0

/-- The calls that `SetPerms` makes. -/
def ChildCall.inPerms : ChildCall → Bool
  | .callocCaps _ | .capbsetDrop _ | .serviceHook _ _ => true
  | c => c.isPermission

/-- The calls on the pid files. -/
def ChildCall.onPidFile : ChildCall → Bool
  | .fopen _ | .fprintf _ _ => true
  | _ => false

/-- The answers of the calls on the pid files. -/
def pidAnswers (sys : Answers) : Answers := fun past c => if c.onPidFile then sys past c else 0

/-- Each pid file is opened and written. -/
def pidFileCalls (h : ChildHost) (args : List (Option (List Char))) : List ChildCall :=
  args.reduceOption.flatMap fun path =>
    [.fopen (h.pidPath path), .fprintf (h.pidPath path) h.childPid]

/-- The preparation of a service, of which `before` are the calls. -/
structure Prepared (h : ChildHost) (sys : Answers) (svc : ChildService k) (execPath : List Char)
    (before : List ChildCall) : Prop where
  sandbox : ∀ box, sandboxFor h svc execPath = some box → .enterSandbox box ∈ before
  token : .setAccessToken svc.tokenId ∈ before
  sockets : svc.ondemand = false → Done sys before .createSocketForService
  files : Done sys before .createServiceFile
  console : svc.console = true → Done sys before .openConsole
  heldFds : (publishedFds h svc).ret = .ret 0 ∧ .publishHoldFds (publishedFds h svc) ∈ before
  pidFiles : before.filter ChildCall.onPidFile = pidFileCalls h svc.writePidArgs ∧
    Succeeds (pidAnswers sys) [] before
  /-- The permissions are the last of these. -/
  perms : ∃ front new, before =
      front ++ (new ++ [.pluginExecCmdByName "setServiceContent" svc.name]) ∧
    (setPerms h.build sys svc.name svc.servicePath svc.servPerm).returns .success front =
      (.success, front ++ new) ∧ ∀ c ∈ new, c.inPerms = true

/-- `ServiceExec` is reached only by a service that is prepared, and otherwise the child exits
without executing anything. -/
def NoUnpreparedExec (h : ChildHost) (sys : Answers) (svc : ChildService k)
    (execPath : List Char) : Prop :=
  (.serviceExec ∈ runChildProcess h sys svc execPath →
    Prepared h sys svc execPath
      ((runChildProcess h sys svc execPath).takeWhile (· ≠ .serviceExec))) ∧
  (.serviceExec ∉ runChildProcess h sys svc execPath →
    (∃ ret, (runChildProcess h sys svc execPath).getLast? = some (.exit ret)) ∧
      ∀ path, .execv path ∉ runChildProcess h sys svc execPath)

/-! ## The calls of the preparation -/

/-- The calls up to the pid files. -/
def setUpCalls (h : ChildHost) (svc : ChildService k) : List ChildCall :=
  (if svc.subContext then [ChildCall.setSubInitContext] else []) ++
  ((h.onDemandSockets.flatMap fun node =>
    if ¬ node.own then node.sockFds.map ChildCall.close else []) ++
  ([ChildCall.setAccessToken svc.tokenId] ++
  ((svc.env.flatMap fun e => if e.1 ≠ [] ∧ e.2 ≠ [] then [ChildCall.setenv e.1 e.2] else []) ++
  ((svc.onStart.toList.map ChildCall.doJobNow) ++
  ((if svc.name ≠ "appspawn".toList ∧ svc.name ≠ "nwebspawn".toList then [ChildCall.unblockSignals]
    else []) ++
  ((if ¬ svc.ondemand then [ChildCall.createSocketForService] else []) ++
  ([ChildCall.setSocketEnvForService] ++
  ([ChildCall.createServiceFile] ++
  ((if svc.console then [ChildCall.openConsole] else []) ++
  ((if svc.kmsg then [ChildCall.openKmsg] else []) ++
  ([ChildCall.publishHoldFds (publishedFds h svc)] ++
  (if svc.cpuSet then [ChildCall.schedSetaffinity] else []))))))))))))

/-- The calls of `WritePid`. -/
def pidCalls (h : ChildHost) (sys : Answers) :
    List (Option (List Char)) → List ChildCall → List ChildCall
  | [], _ => []
  | none :: args, past => pidCalls h sys args past
  | some path :: args, past =>
    if sys past (.fopen (h.pidPath path)) = 0 then
      .fopen (h.pidPath path) :: .fprintf (h.pidPath path) h.childPid ::
        pidCalls h sys args
          (past ++ [.fopen (h.pidPath path), .fprintf (h.pidPath path) h.childPid])
    else .fopen (h.pidPath path) :: pidCalls h sys args (past ++ [.fopen (h.pidPath path)])

section SetUp

open Script

variable {h : ChildHost} {sys : Answers} {svc : ChildService k} {execPath : List Char}

/-- `RunChildProcess` up to the pid files. -/
def setUp (h : ChildHost) (sys : Answers) (svc : ChildService k) (execPath : List Char) :
    ChildScript Unit := do
  Script.doIf svc.subContext (Script.call .setSubInitContext)
  closeOnDemandServiceFdForOtherService h
  beginProperties h sys svc execPath

/-- A call that the child does not check. -/
theorem follows_call {c : ChildCall} (hc : ∀ past, checked sys past c = 0) :
    Follows (checked sys) IsFailure (call c) fun _ => [c] :=
  Follows.call hc

variable (h sys svc execPath) in
theorem setUp_follows :
    Follows (checked sys) IsFailure (setUp h sys svc execPath) fun _ => setUpCalls h svc := by
  have hcontext : Follows (checked sys) IsFailure (doIf svc.subContext (call .setSubInitContext))
      fun _ => if svc.subContext then [.setSubInitContext] else [] :=
    Follows.doIf fun _ => follows_call fun _ => rfl
  have hclose : Follows (checked sys) IsFailure (closeOnDemandServiceFdForOtherService h)
      fun _ => h.onDemandSockets.flatMap fun node =>
        if ¬ node.own then node.sockFds.map .close else [] := by
    refine Follows.each _ fun node _ => Follows.doIf fun _ => ?_
    rw [List.map_eq_flatMap]
    exact Follows.each _ fun fd _ => follows_call fun _ => rfl
  have htoken : Follows (checked sys) IsFailure (call (.setAccessToken svc.tokenId))
      fun _ => [.setAccessToken svc.tokenId] := follows_call fun _ => rfl
  have henv : Follows (checked sys) IsFailure (setServiceEnv svc)
      fun _ => svc.env.flatMap fun e => if e.1 ≠ [] ∧ e.2 ≠ [] then [.setenv e.1 e.2] else [] :=
    Follows.each _ fun e _ => Follows.doIf fun _ => follows_call fun _ => rfl
  have hjob : Follows (checked sys) IsFailure (doStartJob svc)
      fun _ => svc.onStart.toList.map .doJobNow := by
    unfold doStartJob
    cases svc.onStart with
    | none => exact Follows.pure
    | some job => exact follows_call fun _ => rfl
  have hsignals : Follows (checked sys) IsFailure (clearEnvironment svc)
      fun _ => if svc.name ≠ "appspawn".toList ∧ svc.name ≠ "nwebspawn".toList then
        [.unblockSignals] else [] :=
    Follows.doIf fun _ => follows_call fun _ => rfl
  have hsocket : Follows (checked sys) IsFailure
      (doIf (¬ svc.ondemand) (check sys .createSocketForService .esocket))
      fun _ => if ¬ svc.ondemand then [.createSocketForService] else [] :=
    Follows.doIf fun _ => follows_check (fun _ => rfl) (by simp [IsFailure])
  have hsocketEnv : Follows (checked sys) IsFailure (call .setSocketEnvForService)
      fun _ => [.setSocketEnvForService] := follows_call fun _ => rfl
  have hfile : Follows (checked sys) IsFailure (check sys .createServiceFile .efile)
      fun _ => [.createServiceFile] := follows_check (fun _ => rfl) (by simp [IsFailure])
  have hconsole : Follows (checked sys) IsFailure
      (doIf svc.console (check sys .openConsole .econsole))
      fun _ => if svc.console then [.openConsole] else [] :=
    Follows.doIf fun _ => follows_check (fun _ => rfl) (by simp [IsFailure])
  have hkmsg : Follows (checked sys) IsFailure (doIf svc.kmsg (call .openKmsg))
      fun _ => if svc.kmsg then [.openKmsg] else [] :=
    Follows.doIf fun _ => follows_call fun _ => rfl
  have hpublish : Follows (checked sys) IsFailure (publishFds h svc)
      fun _ => [.publishHoldFds (publishedFds h svc)] :=
    Follows.check (fun _ => rfl) (by simp [IsFailure])
  have hcore : Follows (checked sys) IsFailure (bindCpuCore svc)
      fun _ => if svc.cpuSet then [.schedSetaffinity] else [] :=
    Follows.doIf fun _ => follows_call fun _ => rfl
  rw [setUp, beginProperties, setServiceEnterSandbox, pure_bind]
  exact hcontext.bind (hclose.bind (htoken.bind (henv.bind (hjob.bind (hsignals.bind
    (hsocket.bind (hsocketEnv.bind (hfile.bind (hconsole.bind (hkmsg.bind
      (hpublish.bind hcore)))))))))))

/-! ## What is never called -/

/-- `SetPerms` makes its own calls only, and so do its parts. -/
abbrev OnlyPerms {α : Type} (m : ChildScript α) : Prop := Only (fun c => c.inPerms = true) m

theorem serviceSetGid_only {p : ServPerm k} : OnlyPerms (serviceSetGid sys p) := by
  unfold serviceSetGid
  split
  · exact Only.check rfl
  · refine Only.bind (Only.check rfl) fun _ => ?_
    exact Only.ite (fun _ => Only.pure ()) fun _ => Only.check rfl

theorem setSystemSeccompPolicy_only {b : SeccompBuild} {name path : List Char} :
    OnlyPerms (setSystemSeccompPolicy b name path) := by
  unfold setSystemSeccompPolicy
  refine Only.ite (fun _ => ?_) fun _ => Only.pure ()
  split
  · exact Only.leave _
  · split
    · exact Only.leave _
    · exact Only.call rfl

theorem dropCaps_only (caps : List Nat) : OnlyPerms (dropCaps sys caps) := by
  induction caps with
  | nil => exact Only.pure ()
  | cons cap caps ih =>
    refine Only.bind (Only.ask rfl) fun _ => ?_
    exact Only.ite (fun _ => ih) fun _ => Only.pure ()

theorem dropCapability_only {p : ServPerm k} : OnlyPerms (dropCapability sys p) := by
  refine Only.bind (Only.ask rfl) fun _ => Only.ite (fun _ => ?_) fun _ => Only.pure _
  exact (dropCaps_only _).bind fun _ => Only.pure _

theorem setUser_only {p : ServPerm k} : OnlyPerms (setUser sys p) := by
  refine Only.ite (fun _ => Only.check rfl) fun _ => Only.ite (fun _ => ?_) fun _ => Only.pure ()
  exact dropCapability_only.bind fun _ => Only.pure ()

theorem setAmbientCaps_only (caps : List Nat) : OnlyPerms (setAmbientCaps k sys caps) := by
  have hset : ∀ cap, OnlyPerms (setAmbientCapability sys cap) := fun _ => Only.check rfl
  induction caps with
  | nil => exact Only.pure ()
  | cons cap caps ih =>
    refine Only.ite (fun _ => ?_) fun _ => (hset cap).bind fun _ => ih
    exact (Only.each hset _).bind fun _ => Only.leave _

variable (sys) in
theorem setPerms_only (b : SeccompBuild) (name path : List Char) (p : ServPerm k) :
    OnlyPerms (setPerms b sys name path p) := by
  have hbegin : OnlyPerms (beginPerms b sys name path p) := by
    refine Only.bind (Only.call rfl) fun _ => Only.bind (Only.check rfl) fun _ => ?_
    refine serviceSetGid_only.bind fun _ => setSystemSeccompPolicy_only.bind fun _ => ?_
    exact setUser_only.bind fun _ => Only.check rfl
  exact hbegin.bind fun _ => (setAmbientCaps_only _).bind fun _ => Only.call rfl

end SetUp

/-- The calls of the preparation: no sandbox is entered, nothing is executed and the child does
not exit. -/
def ChildCall.prepares : ChildCall → Bool
  | .enterSandbox _ | .serviceExec | .setpriority _ | .openHidebug | .execv _ | .exit _ => false
  | _ => true

/-- `WritePid` writes, for each path in its turn, when the file can be opened. -/
theorem writePid_apply (h : ChildHost) (sys : Answers) (args : List (Option (List Char)))
    (past : List ChildCall) :
    Script.each (writePidFile h sys) args past = (.ok (), past ++ pidCalls h sys args past) := by
  induction args generalizing past with
  | nil => simp [Script.each, pidCalls]
  | cons arg args ih =>
    cases arg with
    | none =>
      rw [Script.each, writePidFile, Script.pure_bind, ih, pidCalls]
    | some path =>
      rw [Script.each, writePidFile, Script.bind_assoc, Script.ask_bind, pidCalls]
      by_cases hopen : sys past (.fopen (h.pidPath path)) = 0
      · rw [if_pos hopen, Script.doIf, if_pos hopen, Script.call_bind, ih]
        simp only [List.append_assoc]
        rfl
      · rw [if_neg hopen, Script.doIf, if_neg hopen, Script.pure_bind, ih, List.append_assoc]
        rfl

theorem onPidFile_of_mem_pidCalls {h : ChildHost} {sys : Answers}
    {args : List (Option (List Char))} {past : List ChildCall} :
    ∀ c ∈ pidCalls h sys args past, c.onPidFile = true := by
  induction args generalizing past with
  | nil => simp [pidCalls]
  | cons arg args ih =>
    cases arg with
    | none => exact ih
    | some path =>
      rw [pidCalls]
      split
      · exact List.forall_mem_cons.mpr ⟨rfl, List.forall_mem_cons.mpr ⟨rfl, ih⟩⟩
      · exact List.forall_mem_cons.mpr ⟨rfl, ih⟩

/-- All pid files are written just in case `WritePid` makes all the calls, and they succeed. -/
theorem pidCalls_iff {h : ChildHost} {sys : Answers} {args : List (Option (List Char))}
    {past : List ChildCall} :
    pidCalls h sys args past = pidFileCalls h args ∧ Succeeds sys past (pidCalls h sys args past) ↔
      Succeeds sys past (pidFileCalls h args) := by
  refine ⟨fun hc => hc.1 ▸ hc.2, ?_⟩
  induction args generalizing past with
  | nil => exact fun hs => ⟨rfl, hs⟩
  | cons arg args ih =>
    cases arg with
    | none => exact ih
    | some path =>
      intro hs
      have hfull : pidFileCalls h (some path :: args) = .fopen (h.pidPath path) ::
          .fprintf (h.pidPath path) h.childPid :: pidFileCalls h args := rfl
      rw [hfull, succeeds_cons, succeeds_cons] at hs
      obtain ⟨hopen, hprint, hrest⟩ := hs
      rw [List.append_assoc] at hrest
      obtain ⟨heq, hsucceeds⟩ := ih hrest
      rw [pidCalls, if_pos hopen, hfull, succeeds_cons, succeeds_cons, List.append_assoc]
      exact ⟨congrArg _ (congrArg _ heq), hopen, hprint, hsucceeds⟩

section Child

open Script

variable {h : ChildHost} {sys : Answers} {svc : ChildService k} {execPath : List Char}

theorem forall_mem_ite {α : Type} {p : Prop} [Decidable p] {as : List α} {P : α → Prop}
    (hP : ∀ a ∈ as, P a) : ∀ a ∈ (if p then as else []), P a := by
  split
  · exact hP
  · simp

variable (h svc) in
theorem prepares_of_mem_setUpCalls :
    ∀ c ∈ setUpCalls h svc, c.prepares = true ∧ c.onPidFile = false := by
  have hone : ∀ {p : Prop} [Decidable p] {c : ChildCall}, c.prepares = true ∧ c.onPidFile = false →
      ∀ c' ∈ (if p then [c] else []), c'.prepares = true ∧ c'.onPidFile = false :=
    fun hc => forall_mem_ite (List.forall_mem_singleton.mpr hc)
  simp only [setUpCalls, List.forall_mem_append, List.forall_mem_singleton, List.forall_mem_map,
    List.forall_mem_flatMap]
  refine ⟨hone ⟨rfl, rfl⟩, fun node _ => forall_mem_ite ?_, ⟨rfl, rfl⟩, fun e _ => hone ⟨rfl, rfl⟩,
    fun job _ => ⟨rfl, rfl⟩, hone ⟨rfl, rfl⟩, hone ⟨rfl, rfl⟩, ⟨rfl, rfl⟩, ⟨rfl, rfl⟩,
    hone ⟨rfl, rfl⟩, hone ⟨rfl, rfl⟩, ⟨rfl, rfl⟩, hone ⟨rfl, rfl⟩⟩
  exact List.forall_mem_map.mpr fun _ _ => ⟨rfl, rfl⟩

theorem prepares_of_inPerms {c : ChildCall} (hc : c.inPerms = true) :
    c.prepares = true ∧ c.onPidFile = false := by
  cases c with
  | _ => first | exact ⟨rfl, rfl⟩ | cases hc

theorem prepares_of_onPidFile {c : ChildCall} (hc : c.onPidFile = true) : c.prepares = true := by
  cases c with
  | _ => first | rfl | cases hc

/-- All calls before the permissions. -/
def frontCalls (h : ChildHost) (sys : Answers) (svc : ChildService k) : List ChildCall :=
  setUpCalls h svc ++ pidCalls h sys svc.writePidArgs (setUpCalls h svc)

/-- Every step that the child checks succeeds. -/
def ChecksSucceed (h : ChildHost) (sys : Answers) (svc : ChildService k) : Prop :=
  Succeeds (checked sys) [] (setUpCalls h svc) ∧
    StepsSucceed h.build sys svc.name svc.servicePath svc.servPerm (frontCalls h sys svc)

theorem prepareChild_eq : prepareChild h sys svc execPath =
    setUp h sys svc execPath >>= fun _ => writePid h sys svc >>= fun _ =>
      sub (setPerms h.build sys svc.name svc.servicePath svc.servPerm) .success >>= fun _ =>
        call (.pluginExecCmdByName "setServiceContent" svc.name) := by
  simp only [prepareChild, initServiceProperties, setUp, bind_assoc]

/-- All calls before `ServiceExec`, when `SetPerms` makes the calls `new`. -/
def beforeExec (h : ChildHost) (sys : Answers) (svc : ChildService k) (new : List ChildCall) :
    List ChildCall :=
  frontCalls h sys svc ++ (new ++ [.pluginExecCmdByName "setServiceContent" svc.name])

theorem prepares_of_mem_frontCalls : ∀ c ∈ frontCalls h sys svc, c.prepares = true :=
  List.forall_mem_append.mpr ⟨fun c hc => (prepares_of_mem_setUpCalls h svc c hc).1,
    fun c hc => prepares_of_onPidFile (onPidFile_of_mem_pidCalls c hc)⟩

variable (h sys svc) in
/-- What `SetPerms` returns and calls, behind what has been called. -/
theorem setPerms_calls (past : List ChildCall) :
    ∃ ret new, (setPerms h.build sys svc.name svc.servicePath svc.servPerm).returns .success past
      = (ret, past ++ new) ∧ ∀ c ∈ new, c.inPerms = true := by
  obtain ⟨new, hnew, hin⟩ := setPerms_only sys h.build svc.name svc.servicePath svc.servPerm past
  refine ⟨_, new, Prod.ext rfl ?_, hin⟩
  rw [returns_calls, hnew]

/-- Behind a set-up that succeeds come the pid files and the permissions. -/
theorem prepareChild_of_setUp (hs : Succeeds (checked sys) [] (setUpCalls h svc)) :
    prepareChild h sys svc execPath [] =
      (sub (setPerms h.build sys svc.name svc.servicePath svc.servPerm) .success >>= fun _ =>
        call (.pluginExecCmdByName "setServiceContent" svc.name)) (frontCalls h sys svc) := by
  rcases setUp_follows h sys svc execPath [] with
    ⟨-, heq⟩ | ⟨hnot, -⟩
  · have hpid : writePid h sys svc (setUpCalls h svc) = (.ok (), frontCalls h sys svc) :=
      writePid_apply h sys svc.writePidArgs _
    rw [prepareChild_eq, bind_of_ok heq]
    exact bind_of_ok hpid
  · exact absurd hs hnot

variable (execPath) in
theorem prepareChild_of_checks (hc : ChecksSucceed h sys svc) :
    ∃ new, (setPerms h.build sys svc.name svc.servicePath svc.servPerm).returns .success
          (frontCalls h sys svc) = (.success, frontCalls h sys svc ++ new) ∧
      (∀ c ∈ new, c.inPerms = true) ∧
      prepareChild h sys svc execPath [] = (.ok (), beforeExec h sys svc new) := by
  obtain ⟨hs, hsteps⟩ := hc
  have hperms := (setPerms_returns h.build sys svc.name svc.servicePath svc.servPerm
    (frontCalls h sys svc) _).mpr ⟨hsteps, rfl⟩
  obtain ⟨ret, new, heq, hin⟩ := setPerms_calls h sys svc (frontCalls h sys svc)
  have hret : ret = .success := by
    rw [heq] at hperms
    exact (Prod.mk.inj hperms).1
  subst hret
  have hsub : sub (setPerms h.build sys svc.name svc.servicePath svc.servPerm) .success
      (frontCalls h sys svc) = (.ok (), frontCalls h sys svc ++ new) := by
    rw [sub, heq]
    rfl
  refine ⟨new, heq, hin, ?_⟩
  rw [prepareChild_of_setUp hs, bind_of_ok hsub, call, List.append_assoc]
  rfl

variable (execPath) in
theorem prepareChild_of_not_checks (hc : ¬ ChecksSucceed h sys svc) :
    ∃ ret calls, prepareChild h sys svc execPath [] = (.error ret, calls) ∧
      ∀ c ∈ calls, c.prepares = true := by
  by_cases hs : Succeeds (checked sys) [] (setUpCalls h svc)
  · obtain ⟨ret, new, heq, hin⟩ := setPerms_calls h sys svc (frontCalls h sys svc)
    have hret : ret ≠ .success := by
      rintro rfl
      exact hc ⟨hs, ((setPerms_returns ..).mp heq).1⟩
    refine ⟨ret, frontCalls h sys svc ++ new, ?_, ?_⟩
    · rw [prepareChild_of_setUp hs]
      exact bind_of_error (by rw [sub, heq]; simp [hret])
    · exact List.forall_mem_append.mpr
        ⟨prepares_of_mem_frontCalls, fun c hc => (prepares_of_inPerms (hin c hc)).1⟩
  · rcases setUp_follows h sys svc execPath [] with
      ⟨hs', -⟩ | ⟨-, ret, pre, -, hpre, heq⟩
    · exact absurd hs' hs
    · refine ⟨ret, pre, ?_, fun c hc => (prepares_of_mem_setUpCalls h svc c (hpre.subset hc)).1⟩
      rw [prepareChild_eq]
      exact bind_of_error heq

/-! ## The whole child -/

/-- The calls before `ServiceExec`. -/
theorem takeWhile_serviceExec {before after : List ChildCall}
    (hbefore : ∀ c ∈ before, c.prepares = true) :
    (before ++ .serviceExec :: after).takeWhile (· ≠ .serviceExec) = before := by
  have hall : ∀ c ∈ before, decide (c ≠ .serviceExec) = true := by
    intro c hc
    rw [decide_eq_true_iff]
    rintro rfl
    exact absurd (hbefore _ hc) (by decide)
  rw [List.takeWhile_append_of_pos hall, List.takeWhile_cons_of_neg (by simp), List.append_nil]

variable (sys svc execPath) in
/-- Whatever becomes of `ServiceExec`, its call comes next. -/
theorem serviceExec_calls (past : List ChildCall) : ∃ after,
    (match serviceExec sys svc execPath past with
      | (.ok (), calls) => calls
      | (.error ret, calls) => calls ++ [.exit ret]) = past ++ .serviceExec :: after := by
  have honly : Only (fun _ => True) (doIf (svc.importance ≠ 0)
      (check sys (.setpriority svc.importance) ChildRet.epriority) >>= fun _ =>
        call .openHidebug >>= fun _ => check sys (.execv execPath) .eexec) :=
    (Only.doIf (Only.check trivial)).bind fun _ =>
      (Only.call trivial).bind fun _ => Only.check trivial
  obtain ⟨new, hnew, -⟩ := honly (past ++ [.serviceExec])
  rw [List.append_assoc] at hnew
  rw [serviceExec, call_bind]
  split
  · next heq => exact ⟨new, (congrArg Prod.snd heq).symm.trans hnew⟩
  · next ret calls heq =>
    refine ⟨new ++ [.exit ret], ?_⟩
    have hcalls : calls = past ++ ([.serviceExec] ++ new) :=
      (congrArg Prod.snd heq).symm.trans hnew
    rw [hcalls]
    simp

variable (h sys svc execPath) in
/-- **What the child does.** If all checked steps succeed it goes on with `ServiceExec`, and
otherwise it exits. -/
theorem runChildProcess_spec :
    (ChecksSucceed h sys svc → ∃ new after,
      (setPerms h.build sys svc.name svc.servicePath svc.servPerm).returns .success
          (frontCalls h sys svc) = (.success, frontCalls h sys svc ++ new) ∧
        (∀ c ∈ new, c.inPerms = true) ∧
        runChildProcess h sys svc execPath = beforeExec h sys svc new ++ .serviceExec :: after) ∧
    (¬ ChecksSucceed h sys svc → ∃ calls ret, (∀ c ∈ calls, c.prepares = true) ∧
      runChildProcess h sys svc execPath = calls ++ [.exit ret]) := by
  constructor
  · intro hc
    obtain ⟨new, hperms, hin, heq⟩ := prepareChild_of_checks execPath hc
    obtain ⟨after, hafter⟩ := serviceExec_calls sys svc execPath (beforeExec h sys svc new)
    refine ⟨new, after, hperms, hin, ?_⟩
    rw [← hafter, runChildProcess, bind_of_ok heq]
  · intro hc
    obtain ⟨ret, calls, heq, hprepares⟩ := prepareChild_of_not_checks execPath hc
    exact ⟨calls, ret, hprepares, by rw [runChildProcess, bind_of_error heq]⟩

theorem token_mem_setUpCalls : .setAccessToken svc.tokenId ∈ setUpCalls h svc := by
  simp only [setUpCalls, List.mem_append, List.mem_singleton, true_or, or_true]

theorem socket_mem_setUpCalls (ho : svc.ondemand = false) :
    .createSocketForService ∈ setUpCalls h svc := by
  have hcond : ¬ svc.ondemand = true := by simp [ho]
  simp only [setUpCalls, if_pos hcond, List.mem_append, List.mem_singleton, true_or, or_true]

theorem file_mem_setUpCalls : .createServiceFile ∈ setUpCalls h svc := by
  simp only [setUpCalls, List.mem_append, List.mem_singleton, true_or, or_true]

theorem console_mem_setUpCalls (hc : svc.console = true) : .openConsole ∈ setUpCalls h svc := by
  simp only [setUpCalls, if_pos hc, List.mem_append, List.mem_singleton, true_or, or_true]

variable (h svc) in
theorem published_mem_setUpCalls : .publishHoldFds (publishedFds h svc) ∈ setUpCalls h svc := by
  simp only [setUpCalls, List.mem_append, List.mem_singleton, true_or, or_true]

/-- A checked call of the set-up that succeeds. -/
theorem done_of_mem_setUpCalls {c : ChildCall} {after : List ChildCall}
    (hs : Succeeds (checked sys) [] (setUpCalls h svc)) (hmem : c ∈ setUpCalls h svc)
    (hc : ∀ past, checked sys past c = sys past c) : Done sys (setUpCalls h svc ++ after) c := by
  obtain ⟨before, behind, hsplit⟩ := List.append_of_mem hmem
  refine ⟨before, behind ++ after, by rw [hsplit, List.append_assoc, List.cons_append], ?_⟩
  rw [← hc before]
  simpa using hs before c behind hsplit

variable (h sys svc) in
theorem prepares_of_mem_before {new : List ChildCall} (hin : ∀ c ∈ new, c.inPerms = true) :
    ∀ c ∈ beforeExec h sys svc new, c.prepares = true := by
  refine List.forall_mem_append.mpr ⟨prepares_of_mem_frontCalls, ?_⟩
  exact List.forall_mem_append.mpr ⟨fun c hc => (prepares_of_inPerms (hin c hc)).1,
    List.forall_mem_singleton.mpr rfl⟩

/-- The calls on the pid files among all calls before `ServiceExec`. -/
theorem pidFiles_iff {new : List ChildCall} (hin : ∀ c ∈ new, c.inPerms = true) :
    (beforeExec h sys svc new).filter ChildCall.onPidFile = pidFileCalls h svc.writePidArgs ∧
        Succeeds (pidAnswers sys) [] (beforeExec h sys svc new) ↔
      Succeeds sys (setUpCalls h svc) (pidFileCalls h svc.writePidArgs) := by
  have hnone : ∀ (past cs : List ChildCall), (∀ c ∈ cs, c.onPidFile = false) →
      cs.filter ChildCall.onPidFile = [] ∧ Succeeds (pidAnswers sys) past cs := by
    intro past cs hcs
    refine ⟨List.filter_eq_nil_iff.mpr fun c hc => by rw [hcs c hc]; decide, ?_⟩
    exact succeeds_of_forall fun c hc _ => by rw [pidAnswers, hcs c hc]; rfl
  obtain ⟨hsetUp, hsetUp'⟩ := hnone [] (setUpCalls h svc) fun c hc =>
    (prepares_of_mem_setUpCalls h svc c hc).2
  obtain ⟨hrest, hrest'⟩ := hnone (frontCalls h sys svc)
    (new ++ [ChildCall.pluginExecCmdByName "setServiceContent" svc.name])
    (List.forall_mem_append.mpr
      ⟨fun c hc => (prepares_of_inPerms (hin c hc)).2, List.forall_mem_singleton.mpr rfl⟩)
  have hpid : (pidCalls h sys svc.writePidArgs (setUpCalls h svc)).filter ChildCall.onPidFile =
      pidCalls h sys svc.writePidArgs (setUpCalls h svc) :=
    List.filter_eq_self.mpr onPidFile_of_mem_pidCalls
  have hmask : Succeeds (pidAnswers sys) (setUpCalls h svc)
        (pidCalls h sys svc.writePidArgs (setUpCalls h svc)) ↔
      Succeeds sys (setUpCalls h svc) (pidCalls h sys svc.writePidArgs (setUpCalls h svc)) :=
    succeeds_congr fun c hc _ => by rw [pidAnswers, if_pos (onPidFile_of_mem_pidCalls c hc)]
  rw [beforeExec, List.filter_append, hrest, List.append_nil, succeeds_append, List.nil_append,
    and_iff_left hrest', frontCalls, List.filter_append, hsetUp, List.nil_append, hpid,
    succeeds_append, and_iff_right hsetUp', List.nil_append, hmask, pidCalls_iff]

/-- What is missing of the preparation when `ServiceExec` is reached. -/
theorem prepared_iff {new : List ChildCall} (hs : Succeeds (checked sys) [] (setUpCalls h svc))
    (hperms : (setPerms h.build sys svc.name svc.servicePath svc.servPerm).returns .success
      (frontCalls h sys svc) = (.success, frontCalls h sys svc ++ new))
    (hin : ∀ c ∈ new, c.inPerms = true) :
    Prepared h sys svc execPath (beforeExec h sys svc new) ↔
      sandboxFor h svc execPath = none ∧
        Succeeds sys (setUpCalls h svc) (pidFileCalls h svc.writePidArgs) := by
  have hfront : beforeExec h sys svc new = setUpCalls h svc ++
      (pidCalls h sys svc.writePidArgs (setUpCalls h svc) ++
        (new ++ [.pluginExecCmdByName "setServiceContent" svc.name])) := by
    rw [beforeExec, frontCalls, List.append_assoc]
  constructor
  · intro hp
    refine ⟨?_, (pidFiles_iff hin).mp hp.pidFiles⟩
    -- `EnterSandbox` is never called.
    cases hbox : sandboxFor h svc execPath with
    | none => rfl
    | some box =>
      have hprepares := prepares_of_mem_before h sys svc hin _ (hp.sandbox box hbox)
      cases hprepares
  · rintro ⟨hsandbox, hpid⟩
    refine {
      sandbox := fun box hbox => ?_
      token := ?_
      sockets := fun ho => ?_
      files := ?_
      console := fun ho => ?_
      heldFds := ⟨?_, ?_⟩
      pidFiles := (pidFiles_iff hin).mpr hpid
      perms := ⟨frontCalls h sys svc, new, rfl, hperms, hin⟩ }
    · rw [hsandbox] at hbox
      cases hbox
    · rw [hfront]
      exact List.mem_append_left _ token_mem_setUpCalls
    · rw [hfront]
      exact done_of_mem_setUpCalls hs (socket_mem_setUpCalls ho) fun _ => rfl
    · rw [hfront]
      exact done_of_mem_setUpCalls hs file_mem_setUpCalls fun _ => rfl
    · rw [hfront]
      exact done_of_mem_setUpCalls hs (console_mem_setUpCalls ho) fun _ => rfl
    · obtain ⟨before, after, hsplit⟩ := List.append_of_mem (published_mem_setUpCalls h svc)
      have hzero := hs before _ after hsplit
      by_contra hret
      simp [checked, hret] at hzero
    · rw [hfront]
      exact List.mem_append_left _ (published_mem_setUpCalls h svc)

end Child

/-- **When nothing is executed unprepared.** Just in case a checked step fails, and the child exits;
or the service needs no sandbox and each of its pid files can be opened and written. -/
theorem noUnpreparedExec_iff (h : ChildHost) (sys : Answers) (svc : ChildService k)
    (execPath : List Char) :
    NoUnpreparedExec h sys svc execPath ↔
      (ChecksSucceed h sys svc → sandboxFor h svc execPath = none ∧
        Succeeds sys (setUpCalls h svc) (pidFileCalls h svc.writePidArgs)) := by
  by_cases hc : ChecksSucceed h sys svc
  · rw [imp_iff_right hc]
    obtain ⟨new, after, hperms, hin, heq⟩ :=
      (runChildProcess_spec h sys svc execPath).1 hc
    have hbefore := prepares_of_mem_before h sys svc hin
    rw [NoUnpreparedExec, heq, takeWhile_serviceExec hbefore]
    rw [and_iff_left fun habs => absurd (by simp) habs, imp_iff_right (by simp)]
    exact prepared_iff hc.1 hperms hin
  · obtain ⟨calls, ret, hprepares, heq⟩ :=
      (runChildProcess_spec h sys svc execPath).2 hc
    refine iff_of_true ?_ fun habs => absurd habs hc
    have hnot : ∀ c : ChildCall, c.prepares = false → c ≠ .exit ret → c ∉ calls ++ [.exit ret] := by
      intro c hc hne hmem
      rcases List.mem_append.mp hmem with hmem | hmem
      · exact absurd (hprepares c hmem) (by rw [hc]; decide)
      · exact hne (List.mem_singleton.mp hmem)
    rw [NoUnpreparedExec, heq]
    exact ⟨fun habs => absurd habs (hnot _ rfl (by simp)),
      fun _ => ⟨⟨ret, by simp⟩, fun path => hnot _ rfl (by simp)⟩⟩

/-- A system service of another user than root, and a system with sandboxes. -/
def sandboxedService : ChildService linuxCaps where
  name := "hold".toList
  servicePath := "/system/bin/hold".toList
  servPerm := ⟨1000, [1000], [], by decide, by decide⟩

def sandboxingHost : ChildHost where
  build := ⟨false, 0⟩
  fdHolder := ⟨128, 64, "OHOS_FD_HOLD_".toList⟩
  enableSandbox := true

/-- The service is executed outside the sandbox. -/
theorem executed_outside_sandbox :
    ¬ NoUnpreparedExec sandboxingHost (fun _ _ => 0) sandboxedService
      "/system/bin/hold".toList := by
  rintro ⟨hexec, -⟩
  have hbox := (hexec (by decide)).sandbox "system" (by decide)
  revert hbox
  decide

end InitService
