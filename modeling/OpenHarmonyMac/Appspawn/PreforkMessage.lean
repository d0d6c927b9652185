import OpenHarmonyMac.Appspawn.ColdStart
import OpenHarmonyMac.Appspawn.Reservation
import OpenHarmonyMac.Appspawn.Truthful

/-!
# The message of a reserved process

A process in reserve was forked before its request came. The server writes the message into a file
of `MAX_MEM_SIZE` bytes that both map, and the client into the pipe; the process takes the request
together again. A child that is forked for the request has it from its parent.

* `ChildRequest` — the request, as a child has it
* `served_as_forked_iff` — when the reserved process serves the request as a forked child does
-/

namespace Appspawn

open Infra

/-! ## The two processes -/

/-- The request, as the child works on it. -/
structure ChildRequest where
  client : AppSpawnClient
  message : MsgBytes
deriving DecidableEq

/-- `mapMem` is what `GetMapMem` makes of `writer`. -/
structure PreforkEnv extends SpawnEnv where
  /-- `GetMapMem` in the server. -/
  writer : MapEnv := {}
  /-- `GetMapMem` in the reserved process. -/
  reader : MapEnv := {}

/-- The environment of the server when `GetMapMem` has ended so. -/
def PreforkEnv.mapped (env : PreforkEnv) (mapMem : Bool) : SpawnEnv :=
  { env.toSpawnEnv with mapMem }

variable (k : Codes) (lib : MsgLib) (check : List UInt8 → Int) (env : PreforkEnv)

def mapPrefork (env : MapEnv) (files : Files) (client : AppSpawnClient) (readOnly : Bool) :
    Files × Option (List Char × List UInt8) :=
  getMapMem k env files client.id "prefork".toList MAX_MEM_SIZE readOnly false

/-- `ClearMMAP`, the file. The id is an `int` here, so that the path is another one from 2^31 on. -/
def clearMMAP (files : Files) (client : AppSpawnClient) : Files :=
  match sprintfS PATH_MAX (k.appspawnMsgDir.toList ++
    ("appspawn/prefork_".toList ++ formatInt client.id.toInt32.toInt)) with
  | none => files
  | some path => Function.update files path none

/-- What `WritePreforkMsg` leaves in the file. A `memcpy_s` that fails leaves zeros. -/
def MsgBytes.preforkFile (m : MsgBytes) : List UInt8 :=
  if memcpyS k MAX_MEM_SIZE k.sizeofAppSpawnMsg ≠ 0 then List.replicate MAX_MEM_SIZE 0
  else if writePreforkMsg k (lib.view m.bytes) ≠ 0 then
    MsgBytes.inFile { header := m.header, buffer := [] } MAX_MEM_SIZE
  else m.inFile MAX_MEM_SIZE

/-- `GetAppSpawnMsg`. `check` is `CheckAppSpawnMsg`. -/
def getAppSpawnMsg (files : Files) (client : AppSpawnClient) : Option MsgBytes :=
  match (mapPrefork k env.reader files client true).2 with
  | none => none
  | some (_, buffer) =>
    match lib.getAppSpawnMsgFromBuffer (buffer.take (lib.view buffer).msgLen) none 0 with
    | .error _ => none
    | .ok message _ _ =>
      if lib.decodeAppSpawnMsg message = 0 ∧ check message = 0 then
        some { header := message.take k.sizeofAppSpawnMsg,
               buffer := message.drop k.sizeofAppSpawnMsg }
      else none

/-- `ProcessPreFork` in the reserved process when it has read the client: the request, or the
result that the parent is notified of. -/
def preforkChild (files : Files) (client : AppSpawnClient) : Files × Except Int ChildRequest :=
  (clearMMAP k files client,
    match getAppSpawnMsg k lib check env files client with
    | none => .error k.msgInvalid
    | some message => .ok { client, message })

/-- How a request is served. -/
structure Served where
  started : Started
  files : Files
  /-- The child that serves it, if there is one. -/
  child : Option (Except Int ChildRequest)

/-- The plain fork. The child has the context of its parent. -/
def serveByFork (base : Nat) (files : Files) (content : AppSpawnContent) (request : ChildRequest)
    (n : NodeId) (procs : List Proc) : Served :=
  let started :=
    forkChild k env.toSpawnEnv base content (lib.view request.message.bytes) n procs
  { started, files, child := if started.childPid = 0 then none else some (.ok request) }

/-- `AppSpawnProcessMsgForPrefork` and the process that serves the request. -/
def serveForPrefork (base : Nat) (files : Files) (content : AppSpawnContent)
    (request : ChildRequest) (n : NodeId) (procs : List Proc) : Served :=
  let run (env : SpawnEnv) :=
    appSpawnProcessMsgForPrefork k env base content (lib.view request.message.bytes) n procs
  if content.reservedPid ≤ 0 then
    { serveByFork k lib env base files content request n procs with started := run env.toSpawnEnv }
  else
    let files := if content.propertyBuffer then clearMMAP k files request.client else files
    match mapPrefork k env.writer files request.client false with
    | (files, none) => { started := run (env.mapped false), files, child := none }
    | (files, some (path, _)) =>
      let started := run (env.mapped true)
      let files := Function.update files path (some (request.message.preforkFile k lib))
      -- `*childPid` is set when the process gets the client.
      if started.childPid = 0 then { started, files, child := none }
      else
        let r := preforkChild k lib check env files request.client
        { started, files := r.1, child := some r.2 }

/-- `RunAppSpawnProcessMsg` and the process that serves the request. -/
def serveRequest (base : Nat) (files : Files) (content : AppSpawnContent) (request : ChildRequest)
    (n : NodeId) (procs : List Proc) : Served :=
  if env.bootFinished
      && isSupportPrefork k content request.client (lib.view request.message.bytes) then
    serveForPrefork k lib check env base files content request n procs
  else serveByFork k lib env base files content request n procs

/-! ## A request that is served as by a fork -/

/-- A process in reserve stays there, or it is given the request. -/
def KeptOrHanded (n : NodeId) (p : Proc) (started : Started) : Prop :=
  (p ∈ started.procs ∧ started.content.reservedPid = p.pid ∧ InReserve started.content p) ∨
    p.markHanded n ∈ started.procs

/-- The request is not refused, its child has what a forked child would have, and no process in
reserve is lost. -/
structure ServedAsForked (base : Nat) (files : Files) (content : AppSpawnContent)
    (request : ChildRequest) (n : NodeId) (procs : List Proc) : Prop where
  ret : (serveRequest k lib check env base files content request n procs).started.ret = 0
  child : (serveRequest k lib check env base files content request n procs).child =
    (serveByFork k lib env base files content request n procs).child
  reserve : 0 < content.reservedPid → ∀ p ∈ procs, p.pid = content.reservedPid →
    p.reaped = false → InReserve content p →
    KeptOrHanded n p (serveRequest k lib check env base files content request n procs).started

/-- The calls that serve a request succeed. -/
structure PreforkEnv.Succeeds (content : AppSpawnContent) (request : ChildRequest) : Prop where
  forks : env.Forks content (lib.view request.message.bytes)
  forkPid : ∀ pid ∈ env.fork, 0 < pid
  path : (mapPath k request.client.id "prefork".toList false).isSome = true
  writer : env.writer = {}
  reader : env.reader = {}
  pipe : 0 < content.reservedPid → content.parentToChildFd.isSome = true
  writeClient : env.writeClient = true
  fcntlRet : env.fcntlRet = 0

/-- The request goes to the process in reserve. -/
def takesReserved (content : AppSpawnContent) (request : ChildRequest) : Bool :=
  env.bootFinished && isSupportPrefork k content request.client (lib.view request.message.bytes)
    && decide (0 < content.reservedPid)

variable {k lib check env} {base : Nat} {files : Files} {content : AppSpawnContent}
  {request : ChildRequest} {client : AppSpawnClient} {m : MsgBytes} {n : NodeId} {procs : List Proc}
  {p : Proc}

/-! ## The file -/

/-- **`WritePreforkMsg` succeeds just in case the message fits.** -/
theorem MsgBytes.Accepted.writePreforkMsg_iff (h : m.Accepted k lib check) :
    writePreforkMsg k (lib.view m.bytes) = 0 ↔ m.bytes.length ≤ MAX_MEM_SIZE := by
  have hlen : m.bytes.length = k.sizeofAppSpawnMsg + m.buffer.length := by
    rw [MsgBytes.bytes, List.length_append, h.header]
  have hne : k.memcpyError ≠ 0 := k.ne_zero.2.2.2.2.2.2
  rw [writePreforkMsg, h.msgLen, hlen]
  unfold memcpyS
  split_ifs <;> simp_all <;> omega

theorem MsgBytes.Accepted.preforkFile (h : m.Accepted k lib check)
    (hle : m.bytes.length ≤ MAX_MEM_SIZE) : m.preforkFile k lib = m.inFile MAX_MEM_SIZE := by
  have hwrite : writePreforkMsg k (lib.view m.bytes) = 0 := h.writePreforkMsg_iff.mpr hle
  have hheader : memcpyS k MAX_MEM_SIZE k.sizeofAppSpawnMsg = 0 := by
    by_contra hne
    rw [writePreforkMsg, if_pos hne] at hwrite
    exact hne hwrite
  rw [MsgBytes.preforkFile, if_neg (not_not_intro hheader), if_neg (not_not_intro hwrite)]

theorem mapPrefork_writer {path : List Char}
    (hpath : mapPath k client.id "prefork".toList false = some path) :
    mapPrefork k {} files client false =
      (Function.update files path (some (List.replicate MAX_MEM_SIZE 0)),
        some (path, List.replicate MAX_MEM_SIZE 0)) := by
  rw [mapPrefork, getMapMem, hpath]
  rfl

/-- **What the reserved process reads** is the message that was written. -/
theorem MsgBytes.Accepted.getAppSpawnMsg (h : m.Accepted k lib check) (hlib : lib.HandsOver k)
    (hreader : env.reader = {}) {path : List Char}
    (hpath : mapPath k client.id "prefork".toList false = some path)
    (hle : m.bytes.length ≤ MAX_MEM_SIZE) (hfile : files path = some (m.inFile MAX_MEM_SIZE)) :
    getAppSpawnMsg k lib check env files client = some m := by
  have hmap : mapPrefork k {} files client true =
      (files, some (path, m.inFile MAX_MEM_SIZE)) := by
    rw [mapPrefork, getMapMem, hpath]
    simp only [hfile]
    rw [List.take_of_length_le (MsgBytes.length_inFile hle).le]
    rfl
  obtain ⟨n, r, hcopy⟩ := h.copied hlib MAX_MEM_SIZE
  rw [Appspawn.getAppSpawnMsg, hreader, hmap]
  dsimp only
  rw [hcopy]
  simp only [h.decode, h.check, h.split, and_self, if_true]

/-! ## The hand-over -/

theorem mem_processPreFork {env : SpawnEnv} (h : p ∈ procs) :
    p ∈ (processPreFork env base content procs).2 := by
  unfold processPreFork
  split
  · exact h
  · dsimp only
    split
    · exact h
    · split
      · exact h
      · exact List.mem_append_left _ h

theorem mem_forkChild {env : SpawnEnv} {msg : AppSpawnMsg} (h : p ∈ procs) :
    p ∈ (forkChild k env base content msg n procs).procs := by
  unfold forkChild
  split
  · exact h
  · show p ∈ (appSpawnProcessMsg k env content msg n procs).2.2
    unfold appSpawnProcessMsg
    split
    · exact h
    · split
      · exact h
      · exact List.mem_append_left _ h

/-- A message that fits goes to the process in reserve. -/
theorem appSpawnProcessMsgForPrefork_fits {env : SpawnEnv} {msg : AppSpawnMsg}
    (hpos : 0 < content.reservedPid) (hmap : env.mapMem = true) (hmsg : writePreforkMsg k msg = 0)
    (hpipe : content.parentToChildFd.isSome = true) (hwrite : env.writeClient = true) :
    appSpawnProcessMsgForPrefork k env base content msg n procs =
      Started.preFork env (base + 1)
        { content := { content with propertyBuffer := true }, kills := [], ret := env.fcntlRet,
          childPid := content.reservedPid, fd := content.preforkFd,
          procs := updateProc (Proc.markHanded n) content.reservedPid procs } := by
  have hwrites : (content.parentToChildFd.isSome && env.writeClient) = true := by
    rw [hpipe, hwrite]
    rfl
  unfold appSpawnProcessMsgForPrefork handOver
  rw [if_neg (Int.not_le.mpr hpos), if_neg (by rw [hmap]; exact Bool.noConfusion),
    if_neg (not_not_intro hmsg), if_pos hwrites]

/-- **A message that does not fit** is refused, and the process stays in reserve. -/
theorem appSpawnProcessMsgForPrefork_long {env : SpawnEnv} {msg : AppSpawnMsg}
    (hpos : 0 < content.reservedPid) (hmap : env.mapMem = true) (hmsg : writePreforkMsg k msg ≠ 0) :
    appSpawnProcessMsgForPrefork k env base content msg n procs =
      { content := { content with propertyBuffer := false }, procs, kills := [],
        ret := writePreforkMsg k msg, childPid := 0, fd := none } := by
  unfold appSpawnProcessMsgForPrefork
  rw [if_neg (Int.not_le.mpr hpos), if_neg (by rw [hmap]; exact Bool.noConfusion), if_pos hmsg]

/-! ## The two ways to serve a request -/

theorem started_serveForPrefork (hs : env.Succeeds k lib content request)
    (hpos : 0 < content.reservedPid) :
    (serveForPrefork k lib check env base files content request n procs).started =
      appSpawnProcessMsgForPrefork k (env.mapped true) base content
        (lib.view request.message.bytes) n procs := by
  obtain ⟨path, hpath⟩ := Option.isSome_iff_exists.mp hs.path
  unfold serveForPrefork
  rw [if_neg (Int.not_le.mpr hpos)]
  dsimp only
  rw [hs.writer, mapPrefork_writer hpath]
  dsimp only
  split <;> rfl

/-- The process that is given the request has what was written. -/
theorem child_serveForPrefork (hlib : lib.HandsOver k)
    (hm : request.message.Accepted k lib check) (hs : env.Succeeds k lib content request)
    (hpos : 0 < content.reservedPid) (hle : request.message.bytes.length ≤ MAX_MEM_SIZE) :
    (serveForPrefork k lib check env base files content request n procs).child =
      some (.ok request) := by
  obtain ⟨path, hpath⟩ := Option.isSome_iff_exists.mp hs.path
  have hwrite : (env.mapped true).writeClient = true := hs.writeClient
  have hchild : (appSpawnProcessMsgForPrefork k (env.mapped true) base content
      (lib.view request.message.bytes) n procs).childPid ≠ 0 := by
    rw [appSpawnProcessMsgForPrefork_fits hpos rfl (hm.writePreforkMsg_iff.mpr hle) (hs.pipe hpos)
      hwrite]
    exact ne_of_gt hpos
  unfold serveForPrefork
  rw [if_neg (Int.not_le.mpr hpos)]
  dsimp only
  rw [hs.writer, mapPrefork_writer hpath]
  dsimp only
  rw [if_neg hchild]
  unfold preforkChild
  dsimp only
  rw [hm.preforkFile hle, hm.getAppSpawnMsg hlib hs.reader hpath hle (Function.update_self _ _ _)]

/-- A forked child, outside the server of nweb. -/
theorem child_serveByFork (hs : env.Succeeds k lib content request)
    (hmode : content.mode = .appSpawn) :
    (serveByFork k lib env base files content request n procs).child = some (.ok request) := by
  obtain ⟨hpipe, hfork⟩ := hs.forks
  have hne : ¬ (content.mode = .nwebSpawn ∧ (lib.view request.message.bytes).processType = none) := by
    rintro ⟨hnweb, -⟩
    rw [hmode] at hnweb
    cases hnweb
  obtain ⟨pid, hpid⟩ := Option.isSome_iff_exists.mp (hfork.resolve_left hne)
  have hchild : (forkChild k env.toSpawnEnv base content (lib.view request.message.bytes) n
      procs).childPid = pid := by
    unfold forkChild appSpawnProcessMsg
    rw [hpipe]
    dsimp only
    rw [if_neg hne, hpid]
  unfold serveByFork
  dsimp only
  rw [if_neg]
  rw [hchild]
  exact ne_of_gt (hs.forkPid pid hpid)

/-! ## The process in reserve -/

theorem keptOrHanded_fork {env : SpawnEnv} {msg : AppSpawnMsg} (hp : p ∈ procs)
    (hpid : p.pid = content.reservedPid) (hr : InReserve content p) :
    KeptOrHanded n p (forkChild k env base content msg n procs) := by
  refine Or.inl ⟨mem_forkChild hp, ?_, ?_⟩
  · rw [forkChild_content, hpid]
  · rw [forkChild_content]
    exact hr

theorem keptOrHanded_fits {env : SpawnEnv} {msg : AppSpawnMsg} (hpos : 0 < content.reservedPid)
    (hmap : env.mapMem = true) (hmsg : writePreforkMsg k msg = 0)
    (hpipe : content.parentToChildFd.isSome = true) (hwrite : env.writeClient = true)
    (hp : p ∈ procs) (hpid : p.pid = content.reservedPid) (hreaped : p.reaped = false) :
    KeptOrHanded n p (appSpawnProcessMsgForPrefork k env base content msg n procs) := by
  rw [appSpawnProcessMsgForPrefork_fits hpos hmap hmsg hpipe hwrite]
  refine Or.inr (mem_processPreFork ?_)
  exact List.mem_map.mpr ⟨p, hp, if_pos ⟨hpid, hreaped⟩⟩

/-- No pipe is touched when the message does not fit. -/
theorem keptOrHanded_long {env : SpawnEnv} {msg : AppSpawnMsg} (hpos : 0 < content.reservedPid)
    (hmap : env.mapMem = true) (hmsg : writePreforkMsg k msg ≠ 0) (hp : p ∈ procs)
    (hpid : p.pid = content.reservedPid) (hr : InReserve content p) :
    KeptOrHanded n p (appSpawnProcessMsgForPrefork k env base content msg n procs) := by
  rw [appSpawnProcessMsgForPrefork_long hpos hmap hmsg]
  exact Or.inl ⟨hp, hpid.symm, hr.handedTo, hr.notKilled, hr.pipes⟩

/-- **A process in reserve is not lost**, whether the message fits or not. -/
theorem keptOrHanded_serveRequest (hs : env.Succeeds k lib content request) (hp : p ∈ procs)
    (hpos : 0 < content.reservedPid) (hpid : p.pid = content.reservedPid)
    (hreaped : p.reaped = false) (hr : InReserve content p) :
    KeptOrHanded n p (serveRequest k lib check env base files content request n procs).started := by
  have hwrite : (env.mapped true).writeClient = true := hs.writeClient
  unfold serveRequest
  split
  · rw [started_serveForPrefork hs hpos]
    by_cases hmsg : writePreforkMsg k (lib.view request.message.bytes) = 0
    · exact keptOrHanded_fits hpos rfl hmsg (hs.pipe hpos) hwrite hp hpid hreaped
    · exact keptOrHanded_long hpos rfl hmsg hp hpid hr
  · exact keptOrHanded_fork hp hpid hr

/-! ## When the reserved process serves as a forked child does -/

/-- The result, of which the length of the message decides. -/
theorem ret_serveRequest (hm : request.message.Accepted k lib check)
    (hs : env.Succeeds k lib content request) :
    (serveRequest k lib check env base files content request n procs).started.ret = 0 ↔
      (takesReserved k lib env content request = true →
        request.message.bytes.length ≤ MAX_MEM_SIZE) := by
  unfold serveRequest takesReserved
  split
  · next hprefork =>
    rw [hprefork, Bool.true_and, decide_eq_true_iff]
    by_cases hpos : 0 < content.reservedPid
    · rw [started_serveForPrefork hs hpos, appSpawnProcessMsgForPrefork_ret, if_pos hpos,
        forall_prop_of_true hpos, ← hm.writePreforkMsg_iff]
      exact ⟨fun h => h.2.1, fun h => ⟨rfl, h, hs.pipe hpos, hs.writeClient, hs.fcntlRet⟩⟩
    · refine iff_of_true ?_ (fun h => absurd h hpos)
      unfold serveForPrefork
      rw [if_pos (Int.not_lt.mp hpos)]
      dsimp only
      rw [appSpawnProcessMsgForPrefork_ret, if_neg hpos]
      exact hs.forks
  · next hprefork =>
    rw [Bool.not_eq_true] at hprefork
    refine iff_of_true ((forkChild_ret _ _ _ _ _ _).mpr hs.forks) (fun h => ?_)
    rw [hprefork] at h
    cases h

theorem mode_of_isSupportPrefork {msg : AppSpawnMsg}
    (h : isSupportPrefork k content client msg = true) : content.mode = .appSpawn := by
  simp only [isSupportPrefork, Bool.and_eq_true, beq_iff_eq] at h
  exact h.1.1.2

/-- The children of the two paths. -/
theorem child_serveRequest (hlib : lib.HandsOver k) (hm : request.message.Accepted k lib check)
    (hs : env.Succeeds k lib content request)
    (hfits : takesReserved k lib env content request = true →
      request.message.bytes.length ≤ MAX_MEM_SIZE) :
    (serveRequest k lib check env base files content request n procs).child =
      (serveByFork k lib env base files content request n procs).child := by
  unfold serveRequest
  split
  · next hprefork =>
    by_cases hpos : 0 < content.reservedPid
    · -- A fork would make a child too: the server is not that of nweb.
      have hmode := mode_of_isSupportPrefork (Bool.and_eq_true_iff.mp hprefork).2
      have hle : request.message.bytes.length ≤ MAX_MEM_SIZE := by
        refine hfits ?_
        unfold takesReserved
        rw [hprefork, Bool.true_and]
        exact decide_eq_true hpos
      rw [child_serveForPrefork hlib hm hs hpos hle, child_serveByFork hs hmode]
    · unfold serveForPrefork
      rw [if_pos (Int.not_lt.mp hpos)]
  · rfl

/-- **The prefork path serves a request as a fork does**, just in case there is no process in
reserve that takes it or the message fits into `MAX_MEM_SIZE` bytes. -/
theorem served_as_forked_iff (hlib : lib.HandsOver k) (hm : request.message.Accepted k lib check)
    (hs : env.Succeeds k lib content request) :
    ServedAsForked k lib check env base files content request n procs ↔
      (takesReserved k lib env content request = true →
        request.message.bytes.length ≤ MAX_MEM_SIZE) := by
  constructor
  · intro h
    exact (ret_serveRequest hm hs).mp h.ret
  · intro hfits
    refine ⟨(ret_serveRequest hm hs).mpr hfits, child_serveRequest hlib hm hs hfits, ?_⟩
    intro hpos p hp hpid hreaped hr
    exact keptOrHanded_serveRequest hs hp hpos hpid hreaped hr

/-! ## A message of 4097 bytes -/

/-- A process in reserve, for which everything succeeds. -/
def samplePrefork : PreforkEnv :=
  { bootFinished := true, fork := some 101, preforkFork := some 102 }

def sampleReserved : AppSpawnContent :=
  { mode := .appSpawn, enablePerfork := true, reservedPid := 100, preforkFd := some 5,
    parentToChildFd := some 6 }

/-- A request whose header says how long the message is. -/
def sampleRequest (lowByte highByte : UInt8) (bodyLen : Nat) : ChildRequest where
  client := { id := 7, flags := 0 }
  message :=
    { header := List.replicate 8 0 ++ [lowByte, highByte, 0, 0] ++ List.replicate 268 0
      buffer := List.replicate bodyLen 0 }

theorem succeeds_samplePrefork (request : ChildRequest) (hid : request.client.id = 7) :
    samplePrefork.Succeeds sampleCodes wireLib sampleReserved request where
  forks := ⟨rfl, Or.inr rfl⟩
  forkPid := by rintro _ ⟨⟩; decide
  path := by rw [hid]; decide +kernel
  writer := rfl
  reader := rfl
  pipe _ := rfl
  writeClient := rfl
  fcntlRet := rfl

/-- A message of 284 bytes is handed over. -/
theorem served_as_forked_iff_run : ServedAsForked sampleCodes wireLib (fun _ => 0) samplePrefork 7
    (fun _ => none) sampleReserved (sampleRequest 28 1 4) 0
    [{ pid := 100, prefork := some (5, 6) }] := by
  have hm : (sampleRequest 28 1 4).message.Accepted sampleCodes wireLib (fun _ => 0) :=
    ⟨by decide +kernel, by decide +kernel, by decide +kernel, rfl⟩
  exact (served_as_forked_iff wireLib_handsOver hm (succeeds_samplePrefork _ rfl)).mpr
    fun _ => by decide +kernel

/-- **A message of 4097 bytes is refused** while a process is in reserve. -/
theorem long_message_refused :
    (sampleRequest 1 16 3817).message.Accepted sampleCodes wireLib (fun _ => 0) ∧
      (sampleRequest 1 16 3817).message.bytes.length ≤ wireLib.maxMsgTotalLength ∧
      samplePrefork.Succeeds sampleCodes wireLib sampleReserved (sampleRequest 1 16 3817) ∧
      ¬ ServedAsForked sampleCodes wireLib (fun _ => 0) samplePrefork 7 (fun _ => none)
        sampleReserved (sampleRequest 1 16 3817) 0 [{ pid := 100, prefork := some (5, 6) }] := by
  have hm : (sampleRequest 1 16 3817).message.Accepted sampleCodes wireLib (fun _ => 0) :=
    ⟨by decide +kernel, by decide +kernel, by decide +kernel, rfl⟩
  have hs := succeeds_samplePrefork (sampleRequest 1 16 3817) rfl
  refine ⟨hm, by decide +kernel, hs, fun h => ?_⟩
  have hle := (ret_serveRequest hm hs).mp h.ret (by decide +kernel)
  exact absurd hle (by decide +kernel)

end Appspawn
