import Mathlib.Logic.Function.Basic
import OpenHarmonyMac.Infra.CString
import OpenHarmonyMac.Appspawn.Framing
import OpenHarmonyMac.Appspawn.Prefork

/-!
# Cold start

A child that is to be started cold writes its message into a file under `APPSPAWN_MSG_DIR`, and
what else the new process needs into its argument vector, and replaces itself by a new appspawn
process, which takes the context together again.

* `cold_start_round_trip` — the context comes out as it went in
-/

namespace Appspawn

open Infra

/-! ## The file -/

/-- The files by their paths. -/
abbrev Files := List Char → Option (List UInt8)

/-- `PATH_MAX` -/
def PATH_MAX : Nat := 4096

/-- What the environment answers to one call of `GetMapMem`. -/
structure MapEnv where
  openFile : Bool := true
  mmap : Bool := true
deriving DecidableEq, Repr

variable (k : Codes)

/-- The path of the file, which `GetMapMem` and `GetAppSpawningCtxFromArg` spell alike. -/
def mapPath (clientId : UInt32) (processName : List Char) (isNweb : Bool) : Option (List Char) :=
  sprintfS PATH_MAX (k.appspawnMsgDir.toList ++
    ((if isNweb then "nwebspawn".toList else "appspawn".toList) ++
      '/' :: (cString processName ++ '_' :: formatNat clientId.toNat)))

/-- `GetMapMem`: the path and the bytes that are mapped. A writer creates the file with `size`
zeros; a reader sees what is in the file, up to `size` bytes. Nothing of length 0 is mapped. -/
def getMapMem (env : MapEnv) (files : Files) (clientId : UInt32) (processName : List Char)
    (size : Nat) (readOnly isNweb : Bool) : Files × Option (List Char × List UInt8) :=
  match mapPath k clientId processName isNweb with
  | none => (files, none)
  | some path =>
    if env.openFile = false then (files, none)
    else if readOnly then
      match files path with
      | none => (files, none)
      | some bytes => (files, if env.mmap && size != 0 then some (path, bytes.take size) else none)
    else
      (Function.update files path (some (List.replicate size 0)),
        if env.mmap && size != 0 then some (path, List.replicate size 0) else none)

/-! ## The writer -/

/-- The bytes of a message node: `msgHeader`, and `buffer` behind it. -/
structure MsgBytes where
  header : List UInt8
  buffer : List UInt8
deriving DecidableEq, Repr

def MsgBytes.bytes (m : MsgBytes) : List UInt8 := m.header ++ m.buffer

/-- The spawning context, as far as it is handed to the new process. -/
structure ColdCtx where
  client : AppSpawnClient
  /-- `forkCtx.fd[1]` -/
  fd : Int32
  message : MsgBytes
deriving DecidableEq, Repr

variable (lib : MsgLib)

/-- `GetProcessName` -/
def ColdCtx.processName (property : ColdCtx) : List Char :=
  (lib.view property.message.bytes).processName.toList

/-- `memSize` of `WriteMsgToChild`, an `uint32_t`. -/
def memSize (msgLen : Nat) : Nat := (msgLen / 4096 + 1) * 4096 % 2 ^ 32

/-- The file with the message in it. -/
def MsgBytes.inFile (m : MsgBytes) (size : Nat) : List UInt8 :=
  m.bytes ++ List.replicate (size - m.bytes.length) 0

/-- `WriteMsgToChild`: the files, and `forkCtx.msgSize` or an error. -/
def writeMsgToChild (env : MapEnv) (files : Files) (property : ColdCtx) (isNweb : Bool) :
    Files × Except Int Nat :=
  let msgLen := (lib.view property.message.bytes).msgLen
  let memSize := memSize msgLen
  let r := getMapMem k env files property.client.id (property.processName lib) memSize false isNweb
  match r.2 with
  | none => (r.1, .error k.systemError)
  | some (path, _) =>
    if memcpyS k memSize k.sizeofAppSpawnMsg ≠ 0 then (r.1, .error k.systemError)
    else if memcpyS k (memSize - k.sizeofAppSpawnMsg) (msgLen - k.sizeofAppSpawnMsg) ≠ 0 then
      (r.1, .error k.systemError)
    else (Function.update r.1 path (some (property.message.inFile memSize)), .ok memSize)

/-- `sprintf_s(buffer[i], sizeof(buffer[i]), " %d ", ...)` -/
def formatArg (text : List Char) : Option (List Char) := sprintfS 32 (' ' :: (text ++ [' ']))

/-- How `AppSpawnColdStartApp` ends: `argv` when it has called `execv`. -/
structure ColdStarted where
  ret : Int
  files : Files
  argv : Option (List (List Char))

/-- `AppSpawnColdStartApp`, up to the call of `execv`. It returns 0 when that fails. -/
def appSpawnColdStartApp (env : MapEnv) (files : Files) (content : AppSpawnContent)
    (path : List Char) (property : ColdCtx) : ColdStarted :=
  match writeMsgToChild k lib env files property content.isNWebSpawnMode with
  | (files, .error _) => { ret := k.systemError, files, argv := none }
  | (files, .ok msgSize) =>
    match formatArg (formatInt property.fd.toInt), formatArg (formatNat property.client.flags.toNat),
      formatArg (formatNat msgSize), formatArg (formatNat property.client.id.toNat) with
    | some fd, some flags, some size, some id =>
      let mode := if content.isNWebSpawnMode then "nweb_cold" else "app_cold"
      { ret := 0, files,
        argv := some [path, "-mode".toList, mode.toList, "-fd".toList, fd, flags, size,
          "-param".toList, cString (property.processName lib), id] }
    | _, _, _, _ => { ret := k.systemError, files, argv := none }

/-! ## The reader -/

/-- `GetAppSpawnStartArg`: the mode of the entry of `g_appSpawnStartArgTemplate` with this name,
or of the first entry. -/
def getAppSpawnStartArg (name : List Char) : Mode :=
  if name = k.appspawnServerName.toList then .appSpawn
  else if name = k.nwebspawnServerName.toList then .nwebSpawn
  else if name = "app_cold".toList then .appColdRun
  else if name = "nweb_cold".toList then .nwebColdRun
  else if name = k.nativespawnServerName.toList then .nativeSpawn
  else .appSpawn

/-- The content of a process that is not the server. -/
def coldContent (mode : Mode) : AppSpawnContent := { mode, enablePerfork := false }

def MODE_VALUE_INDEX : Nat := 2
def FD_VALUE_INDEX : Nat := 4
def FLAGS_VALUE_INDEX : Nat := 5
def SHM_SIZE_INDEX : Nat := 6
def PARAM_VALUE_INDEX : Nat := 8
def CLIENT_ID_INDEX : Nat := 9
def ARG_NULL : Nat := 10

/-- What `GetAppSpawningCtxFromArg` finds and does. -/
structure FromArg where
  property : Option ColdCtx
  files : Files
  /-- The file that was mapped, and with which size. -/
  mapped : Option (List Char × Nat)
  /-- The results that the parent is notified of. -/
  notified : List Int

/-- `GetAppSpawningCtxFromArg` in a process of the mode `mode`. `check` is `CheckAppSpawnMsg`. -/
def getAppSpawningCtxFromArg (check : List UInt8 → Int) (env : MapEnv) (files : Files) (mode : Mode)
    (argv : List (List Char)) : FromArg :=
  let arg i := argv.getD i []
  let fd := Int32.ofInt (atoi (arg FD_VALUE_INDEX))
  let flags := toUInt32 (atoi (arg FLAGS_VALUE_INDEX)) &&& ~~~k.appColdStart
  let isNweb := (coldContent mode).isNWebSpawnMode
  let size := (toUInt32 (atoi (arg SHM_SIZE_INDEX))).toNat
  let id := toUInt32 (atoi (arg CLIENT_ID_INDEX))
  match (getMapMem k env files id (arg PARAM_VALUE_INDEX) size true isNweb).2 with
  | none => { property := none, files, mapped := none, notified := [k.systemError] }
  | some (path, buffer) =>
    let files := Function.update files path none
    match lib.getAppSpawnMsgFromBuffer (buffer.take (lib.view buffer).msgLen) none 0 with
    | .error _ =>
      { property := none, files, mapped := some (path, size), notified := [k.msgInvalid] }
    | .ok message _ _ =>
      if lib.decodeAppSpawnMsg message = 0 ∧ check message = 0 then
        { property := some
            { client := { id, flags }, fd,
              message := { header := message.take k.sizeofAppSpawnMsg,
                           buffer := message.drop k.sizeofAppSpawnMsg } },
          files, mapped := some (path, size), notified := [] }
      else { property := none, files, mapped := some (path, size), notified := [k.msgInvalid] }

/-! ## The round trip -/

variable {k lib}

/-- What the hand-over relies on: `msgLen` lies in the header, and `GetAppSpawnMsgFromBuffer`
copies a message that is whole. -/
structure MsgLib.HandsOver (lib : MsgLib) (k : Codes) : Prop where
  header : ∀ header tail tail', header.length = k.sizeofAppSpawnMsg →
    (lib.view (header ++ tail)).msgLen = (lib.view (header ++ tail')).msgLen
  copies : ∀ range, k.sizeofAppSpawnMsg ≤ range.length → (lib.view range).msgLen = range.length →
    ∃ n r, lib.getAppSpawnMsgFromBuffer range none 0 = .ok range n r

/-- A message as `ProcessSpawnReqMsg` accepts it. -/
structure MsgBytes.Accepted (m : MsgBytes) (k : Codes) (lib : MsgLib)
    (check : List UInt8 → Int) : Prop where
  header : m.header.length = k.sizeofAppSpawnMsg
  msgLen : (lib.view m.bytes).msgLen = m.bytes.length
  decode : lib.decodeAppSpawnMsg m.bytes = 0
  check : check m.bytes = 0

variable {check : List UInt8 → Int} {m : MsgBytes} {size : Nat} {isNweb : Bool}

theorem memcpyS_eq_zero {destMax count : Nat} (h : ¬ memcpyS k destMax count ≠ 0) :
    count ≤ destMax := by
  by_contra hlt
  rw [memcpyS, if_neg hlt] at h
  exact h k.ne_zero.2.2.2.2.2.2

theorem MsgBytes.length_inFile (h : m.bytes.length ≤ size) : (m.inFile size).length = size := by
  rw [MsgBytes.inFile, List.length_append, List.length_replicate]
  omega

theorem MsgBytes.take_inFile (m : MsgBytes) (size : Nat) :
    (m.inFile size).take m.bytes.length = m.bytes := List.take_left

/-- The length is read from the file as it was written. -/
theorem MsgBytes.Accepted.msgLen_inFile (h : m.Accepted k lib check) (hlib : lib.HandsOver k)
    (size : Nat) : (lib.view (m.inFile size)).msgLen = m.bytes.length := by
  rw [← h.msgLen, MsgBytes.inFile, MsgBytes.bytes, List.append_assoc]
  exact hlib.header _ _ _ h.header

/-- The message that is copied out of the file is the one that was written. -/
theorem MsgBytes.Accepted.copied (h : m.Accepted k lib check) (hlib : lib.HandsOver k) (size : Nat) :
    ∃ n r, lib.getAppSpawnMsgFromBuffer ((m.inFile size).take (lib.view (m.inFile size)).msgLen)
      none 0 = .ok m.bytes n r := by
  rw [h.msgLen_inFile hlib, MsgBytes.take_inFile]
  refine hlib.copies m.bytes ?_ h.msgLen
  rw [MsgBytes.bytes, List.length_append, h.header]
  omega

theorem MsgBytes.Accepted.split (h : m.Accepted k lib check) :
    m.bytes.take k.sizeofAppSpawnMsg = m.header ∧ m.bytes.drop k.sizeofAppSpawnMsg = m.buffer := by
  rw [← h.header]
  exact ⟨List.take_left, List.drop_left⟩

/-- The name of the file depends on the name of the process up to its NUL only. -/
theorem mapPath_cString (clientId : UInt32) (name : List Char) :
    mapPath k clientId (cString name) isNweb = mapPath k clientId name isNweb := by
  rw [mapPath, mapPath, cString_cString]

/-- What `WriteMsgToChild` has done when it succeeds. -/
theorem writeMsgToChild_ok {env : MapEnv} {files files' : Files} {property : ColdCtx}
    (hm : property.message.Accepted k lib check)
    (h : writeMsgToChild k lib env files property isNweb = (files', .ok size)) :
    size = memSize property.message.bytes.length ∧ property.message.bytes.length ≤ size ∧
      size ≠ 0 ∧ ∃ file, mapPath k property.client.id (property.processName lib) isNweb = some file ∧
        files' file = some (property.message.inFile size) := by
  simp only [writeMsgToChild, getMapMem, hm.msgLen] at h
  cases hp : mapPath k property.client.id (property.processName lib) isNweb with
  | none => simp [hp] at h
  | some file =>
    simp only [hp, Bool.false_eq_true, if_false] at h
    split at h
    · cases (Prod.mk.inj h).2
    · next file' bytes heq =>
      split at heq
      · cases heq
      · simp only at heq
        split at heq
        · next hmap =>
          cases heq
          split at h
          · cases (Prod.mk.inj h).2
          · next hheader =>
            split at h
            · cases (Prod.mk.inj h).2
            · next hbody =>
              obtain ⟨rfl, hsize⟩ := Prod.mk.inj h
              obtain rfl := Except.ok.inj hsize
              have h₁ := memcpyS_eq_zero hheader
              have h₂ := memcpyS_eq_zero hbody
              have hne : memSize property.message.bytes.length ≠ 0 := by
                simp only [Bool.and_eq_true, bne_iff_ne] at hmap
                exact hmap.2
              exact ⟨rfl, by omega, hne, file, rfl, Function.update_self ..⟩
        · cases heq

/-- The new process runs in a mode that names its files like the old one. -/
theorem isNWebSpawnMode_startArg (content : AppSpawnContent) :
    (coldContent (getAppSpawnStartArg k
      (if content.isNWebSpawnMode then "nweb_cold" else "app_cold").toList)).isNWebSpawnMode
        = content.isNWebSpawnMode := by
  obtain ⟨h₁, h₂, h₃, h₄⟩ := k.names_ne
  have hne : ∀ {a b : String}, b ≠ a → a.toList ≠ b.toList := fun h he =>
    h (String.toList_inj.mp he).symm
  cases content.isNWebSpawnMode with
  | true =>
    simp only [if_true, getAppSpawnStartArg, if_neg (hne h₂), if_neg (hne h₄)]
    decide
  | false =>
    simp only [Bool.false_eq_true, if_false, getAppSpawnStartArg, if_neg (hne h₁), if_neg (hne h₃),
      if_true]
    decide

/-- What `GetAppSpawningCtxFromArg` finds when its arguments and the file are right. -/
theorem getAppSpawningCtxFromArg_eq {files : Files} {mode : Mode} {argv : List (List Char)}
    {file : List Char} {name : List Char} {client : AppSpawnClient} {fd : Int32}
    (hm : m.Accepted k lib check) (hlib : lib.HandsOver k)
    (hmode : (coldContent mode).isNWebSpawnMode = isNweb)
    (hfd : argv.getD FD_VALUE_INDEX [] = ' ' :: (formatInt fd.toInt ++ [' ']))
    (hflags : argv.getD FLAGS_VALUE_INDEX [] = ' ' :: (formatNat client.flags.toNat ++ [' ']))
    (hshm : argv.getD SHM_SIZE_INDEX [] = ' ' :: (formatNat size ++ [' ']))
    (hid : argv.getD CLIENT_ID_INDEX [] = ' ' :: (formatNat client.id.toNat ++ [' ']))
    (hname : argv.getD PARAM_VALUE_INDEX [] = cString name)
    (hsize : size < 2 ^ 32) (hne : size ≠ 0) (hle : m.bytes.length ≤ size)
    (hpath : mapPath k client.id name isNweb = some file)
    (hfile : files file = some (m.inFile size)) :
    getAppSpawningCtxFromArg k lib check {} files mode argv =
      { property := some
          { client := { client with flags := client.flags &&& ~~~k.appColdStart }, fd, message := m },
        files := Function.update files file none, mapped := some (file, size), notified := [] } := by
  have hsize' : (toUInt32 (atoi (' ' :: (formatNat size ++ [' '])))).toNat = size := by
    have h := toUInt32_atoi_formatNat (UInt32.ofNat size)
    rw [UInt32.toNat_ofNat_of_lt' hsize] at h
    rw [h, UInt32.toNat_ofNat_of_lt' hsize]
  have hfd' : Int32.ofInt (atoi (' ' :: (formatInt fd.toInt ++ [' ']))) = fd := by
    rw [atoi_formatInt fd.le_toInt fd.toInt_lt, Int32.ofInt_toInt]
  have hmap : (m.inFile size).take size = m.inFile size :=
    List.take_of_length_le (MsgBytes.length_inFile hle).le
  obtain ⟨n, r, hcopy⟩ := hm.copied hlib size
  simp only [getAppSpawningCtxFromArg, hmode, hfd, hflags, hshm, hid, hname, hsize', hfd',
    toUInt32_atoi_formatNat, getMapMem, mapPath_cString, hpath, hfile, hmap]
  simp only [bne_iff_ne.mpr hne, Bool.true_eq_false, Bool.and_true, if_false, if_true]
  rw [hcopy]
  simp only [hm.decode, hm.check, hm.split, and_self, if_true]

/-- **The context that `AppSpawnColdStartApp` writes comes out of `GetAppSpawningCtxFromArg` as it
was**, without the flag, and out of the file that was made for it. -/
theorem cold_start_round_trip {env : MapEnv} {files : Files} {content : AppSpawnContent}
    {path : List Char} {property : ColdCtx} {argv : List (List Char)} (hlib : lib.HandsOver k)
    (hm : property.message.Accepted k lib check)
    (h : (appSpawnColdStartApp k lib env files content path property).argv = some argv) :
    ∃ file bytes, (appSpawnColdStartApp k lib env files content path property).files file
        = some bytes ∧ bytes.length = memSize property.message.bytes.length ∧
      ARG_NULL ≤ argv.length ∧
      getAppSpawningCtxFromArg k lib check {}
          (appSpawnColdStartApp k lib env files content path property).files
          (getAppSpawnStartArg k (argv.getD MODE_VALUE_INDEX [])) argv =
        { property := some { property with client.flags :=
            property.client.flags &&& ~~~k.appColdStart },
          files := Function.update
            (appSpawnColdStartApp k lib env files content path property).files file none,
          mapped := some (file, bytes.length), notified := [] } := by
  unfold appSpawnColdStartApp at h ⊢
  split at h
  · cases h
  · next files' size hwrite =>
    obtain ⟨hsize, hle, hne, file, hpath, hfile⟩ := writeMsgToChild_ok hm hwrite
    split at h
    · next fd flags shm id hfd hflags hshm hid =>
      obtain rfl := eq_of_sprintfS hfd
      obtain rfl := eq_of_sprintfS hflags
      obtain rfl := eq_of_sprintfS hshm
      obtain rfl := eq_of_sprintfS hid
      obtain rfl := Option.some.inj h
      have hlen : (property.message.inFile size).length = size := MsgBytes.length_inFile hle
      refine ⟨file, property.message.inFile size, hfile, hlen.trans hsize, Nat.le_refl _, ?_⟩
      rw [hlen]
      refine getAppSpawningCtxFromArg_eq hm hlib ?_ rfl rfl rfl rfl rfl ?_ hne hle hpath hfile
      · exact isNWebSpawnMode_startArg content
      · rw [hsize, memSize]
        exact Nat.mod_lt _ (by decide)
    · cases h

theorem wireLib_handsOver : wireLib.HandsOver sampleCodes where
  header header tail tail' h := by
    have hlen : header.length = 280 := h
    have hfield : ∀ t, lengthField (header ++ t) = lengthField header := fun t =>
      (lengthField_prefixed (List.prefix_append header t) (by omega)).symm
    simp only [wireLib, hfield]
  copies range hlen h := by
    have hlong : ¬ range.length < headerLen := by
      rw [headerLen]
      exact fun hlt => absurd (Nat.le_trans hlen (Nat.le_of_lt hlt)) (by decide)
    simp only [wireLib] at h
    have hneed : wireNeed [] range = range.length := by
      rw [wireNeed, List.nil_append, if_neg hlong, h, List.length_nil, Nat.sub_zero]
    refine ⟨0 + min range.length range.length, 0, ?_⟩
    simp [wireLib, hneed]

/-- A context whose flags and id do not fit into an `int`, with a message of 284 bytes. -/
def sampleColdCtx : ColdCtx where
  client := { id := 4294967295, flags := 2147483649 }
  fd := 5
  message :=
    { header := List.replicate 8 0 ++ [28, 1, 0, 0] ++ List.replicate 268 0
      buffer := [1, 2, 3, 4] }

/-- It is handed over by the server of nweb, and comes out with the flag cleared. -/
theorem cold_start_round_trip_run : ∃ argv files, ∃ file,
    getAppSpawningCtxFromArg sampleCodes wireLib (fun _ => 0) {} files
        (getAppSpawnStartArg sampleCodes (argv.getD MODE_VALUE_INDEX [])) argv =
      { property := some { sampleColdCtx with client := { id := 4294967295, flags := 2147483648 } },
        files := Function.update files file none, mapped := some (file, 4096), notified := [] } := by
  have hm : sampleColdCtx.message.Accepted sampleCodes wireLib (fun _ => 0) :=
    ⟨by decide +kernel, by decide +kernel, by decide +kernel, rfl⟩
  have hs : (appSpawnColdStartApp sampleCodes wireLib {} (fun _ => none)
      { mode := .nwebSpawn, enablePerfork := false } [] sampleColdCtx).argv.isSome = true := by
    decide +kernel
  obtain ⟨argv, hargv⟩ := Option.isSome_iff_exists.mp hs
  obtain ⟨file, bytes, -, hsize, -, h⟩ := cold_start_round_trip wireLib_handsOver hm hargv
  have hlen : bytes.length = 4096 := hsize.trans (by decide +kernel)
  rw [hlen] at h
  exact ⟨argv, _, file, h⟩

end Appspawn
