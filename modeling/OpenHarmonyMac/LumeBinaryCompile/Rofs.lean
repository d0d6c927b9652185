import Mathlib.Data.List.Forall2
import OpenHarmonyMac.LumeBinaryCompile.Assets

/-!
# The read-only file system

The data that the asset compiler puts into its object files: the size, the directory with an entry
without a name at its end, and the contents of the files. A comment in the source documents how the
program that links such an object reads the data.

* `buildData` — the data of a directory
* `dumpFiles` — the documented reader
* `rofs_round_trip` — the reader finds each file with its content, and stops behind the last one
-/

namespace LumeBinaryCompile

open Infra

/-! ## Writing and reading -/

/-- The layout of an `FsEntry`. -/
def fsEntry : Codec FsEntry :=
  ((Codec.raw 256).pair ((Codec.word 8).pair (Codec.word 8))).map
    (fun (fname, offset, size) => { fname, offset, size })
    (fun entry => (entry.fname, entry.offset, entry.size)) fun _ => rfl

/-- The entry at the end of the directory. -/
def terminator : FsEntry where
  fname := ⟨List.replicate 256 0, List.length_replicate⟩
  offset := 0
  size := 0

/-- The offsets from the start of the directory instead of its end. -/
def fixOffsets (directory : List FsEntry) : List FsEntry :=
  let baseOffset := fsEntry.size * (directory.length + 1)
  directory.map fun d => { d with offset := d.offset + BitVec.ofNat 64 baseOffset }

/-- What `main` builds before it writes the objects, `none` where it exits or an allocation
throws. -/
def buildData (validExts : List Bytes) (entries : List (FileName × Tree)) (inPath roPath : Text) :
    Option Bytes := do
  let st ← addDirectory validExts entries inPath roPath {}
  let directory := fixOffsets st.directory ++ [terminator]
  let sizeOfDir := fsEntry.size * directory.length
  let sizeOfData := st.bin.length + sizeOfDir
  if sizeOfData + 8 > ptrdiffMax then none
  else some (le 8 sizeOfData ++ (fsEntry.encodeAll directory ++ st.bin))

/-- What the reader sees of a file. The offset is one from the start of the directory. -/
structure Found where
  name : Bytes
  offset : Nat
  content : Bytes
  deriving DecidableEq

/-- The loop of `dump_files` from the entry `i` on, `none` where it reads outside of the data. The
directory starts behind the size. -/
def dumpFrom (data : Bytes) : Nat → Nat → Option (List Found)
  | 0, _ => some []
  | fuel + 1, i => do
    let entry ← fsEntry.read data (8 + fsEntry.size * i)
    if entry.fname.val.head? = some 0 then some []
    else
      let name ← cStringAt entry.fname.val 0
      let content ← slice data (8 + entry.offset.toNat) entry.size.toNat
      let found ← dumpFrom data fuel (i + 1)
      some ({ name, offset := entry.offset.toNat, content } :: found)

/-- `dump_files`, which has as many rounds at most as the data has bytes. -/
def dumpFiles (data : Bytes) : Option (List Found) := do
  let sizeOfData ← (Codec.word 8).read data 0
  dumpFrom data sizeOfData.toNat 0

/-! ## What the walk leaves in the globals -/

/-- The padding ends at a multiple of 8. -/
theorem dvd_add_padding (size : Nat) : 8 ∣ size + padding size := by
  have hsize : size &&& 7 = size % 8 := Nat.and_two_pow_sub_one_eq_mod size 3
  have hpad : padding size = (8 - size % 8) % 8 := by
    rw [padding, hsize]
    exact Nat.and_two_pow_sub_one_eq_mod _ 3
  rw [hpad]
  omega

/-- The entry of a file, and its content in the block. -/
structure Laid (bin : Bytes) (entry : FsEntry) (file : SourceFile) : Prop where
  fname : entry.fname = fnameOf file.storename
  short : file.storename.bytes.length ≤ 255
  size : entry.size.toNat = file.content.length
  content : At bin entry.offset.toNat file.content
  aligned : 8 ∣ entry.offset.toNat

/-- The globals after these files. -/
structure Layout (st : State) (files : List SourceFile) : Prop where
  laid : List.Forall₂ (Laid st.bin) st.directory files
  ordered : st.directory.Pairwise fun entry entry' =>
    entry.offset.toNat + entry.size.toNat ≤ entry'.offset.toNat
  small : st.bin.length ≤ ptrdiffMax

section Walk

variable {validExts : List Bytes} {st st' : State} {file : SourceFile} {files done : List SourceFile}
  {bin : Bytes} {entry : FsEntry}

theorem Laid.append (h : Laid bin entry file) (post : Bytes) : Laid (bin ++ post) entry file :=
  ⟨h.fname, h.short, h.size, h.content.mono (List.prefix_append _ _), h.aligned⟩

/-- What is in the block ends in the block. -/
theorem Laid.end_le (h : Laid bin entry file) :
    entry.offset.toNat + entry.size.toNat ≤ bin.length := h.size ▸ h.content.end_le

/-- Each entry is that of a file. -/
theorem Layout.exists_laid (h : Layout st files) (hentry : entry ∈ st.directory) :
    ∃ file, Laid st.bin entry file := by
  obtain ⟨i, hi, rfl⟩ := List.getElem_of_mem hentry
  exact ⟨_, h.laid.get hi (h.laid.length_eq ▸ hi)⟩

/-- `AppendFile` of an accepted file. -/
theorem Layout.append (h : Layout st done) (hvalid : valid validExts file = true)
    (happend : appendFile validExts st file = some st') :
    Layout st' (done ++ [file]) ∧
      st'.bin.length = st.bin.length + padding st.bin.length + file.content.length := by
  unfold appendFile at happend
  rw [if_neg (by simp [hvalid])] at happend
  split at happend
  case isTrue => cases happend
  case isFalse hshort =>
    dsimp only at happend
    split at happend
    case isTrue => cases happend
    case isFalse hfits =>
      obtain rfl := Option.some.inj happend
      unfold ptrdiffMax at hfits
      have hoffset : (BitVec.ofNat 64 (st.bin.length + padding st.bin.length)).toNat =
          st.bin.length + padding st.bin.length := toNat_ofNat_of_lt (by omega)
      have hsize : (BitVec.ofNat 64 file.content.length).toNat = file.content.length :=
        toNat_ofNat_of_lt (by omega)
      have hnew : At (st.bin ++ List.replicate (padding st.bin.length) 0 ++ file.content)
          (st.bin.length + padding st.bin.length) file.content := by
        have hright := at_right (st.bin ++ List.replicate (padding st.bin.length) 0) file.content
        rwa [List.length_append, List.length_replicate] at hright
      have hlength := hnew.end_le
      refine ⟨⟨?_, ?_, ?_⟩, ?_⟩
      · -- what was appended before stays in front of the new content
        refine List.rel_append (h.laid.imp fun entry file hlaid => ?_) (List.Forall₂.cons ?_ .nil)
        · rw [List.append_assoc]
          exact hlaid.append _
        · refine ⟨rfl, by omega, hsize, ?_, ?_⟩
          · rw [hoffset]
            exact hnew
          · rw [hoffset]
            exact dvd_add_padding _
      · refine List.pairwise_append.mpr ⟨h.ordered, List.pairwise_singleton _ _, ?_⟩
        intro entry hentry entry' hentry'
        obtain rfl := List.mem_singleton.mp hentry'
        rw [hoffset]
        obtain ⟨file', hlaid⟩ := h.exists_laid hentry
        exact Nat.le_trans hlaid.end_le (Nat.le_add_right _ _)
      · simp only [List.length_append, List.length_replicate]
        unfold ptrdiffMax
        omega
      · simp only [List.length_append, List.length_replicate]

/-- The size of the block when these files have been appended. -/
def packed (size : Nat) (files : List SourceFile) : Nat :=
  files.foldl (fun size file => size + padding size + file.content.length) size

theorem le_packed (size : Nat) (files : List SourceFile) : size ≤ packed size files := by
  induction files generalizing size with
  | nil => exact Nat.le_refl _
  | cons file files ih =>
    have hstep := ih (size + padding size + file.content.length)
    rw [packed, List.foldl_cons, ← packed]
    omega

theorem appendFile_of_not_valid (hvalid : valid validExts file = false) :
    appendFile validExts st file = some st := by
  unfold appendFile
  rw [if_pos (by simp [hvalid])]

theorem isSome_appendFile (hvalid : valid validExts file = true) :
    (appendFile validExts st file).isSome ↔ file.storename.bytes.length ≤ 255 ∧
      st.bin.length + padding st.bin.length + file.content.length ≤ ptrdiffMax := by
  unfold appendFile
  rw [if_neg (by simp [hvalid])]
  dsimp only
  split
  case isTrue hlong => exact iff_of_false (by simp) fun h => by omega
  case isFalse hshort =>
    split
    case isTrue hbig => exact iff_of_false (by simp) fun h => by omega
    case isFalse hfits => exact iff_of_true rfl ⟨by omega, by omega⟩

/-- The accepted files are appended, when all their names are short and the block does not become
too large. -/
theorem appendAll_spec (files : List SourceFile) (h : Layout st done) :
    ((appendAll validExts files st).isSome ↔
      (∀ file ∈ files.filter (valid validExts), file.storename.bytes.length ≤ 255) ∧
        packed st.bin.length (files.filter (valid validExts)) ≤ ptrdiffMax) ∧
    ∀ st', appendAll validExts files st = some st' →
      Layout st' (done ++ files.filter (valid validExts)) ∧
        st'.bin.length = packed st.bin.length (files.filter (valid validExts)) := by
  induction files generalizing st done with
  | nil =>
    refine ⟨iff_of_true rfl ⟨fun _ hfile => absurd hfile List.not_mem_nil, h.small⟩, ?_⟩
    intro st' hst
    cases hst
    rw [List.filter_nil, List.append_nil]
    exact ⟨h, rfl⟩
  | cons file files ih =>
    have hcons : appendAll validExts (file :: files) st =
        (appendFile validExts st file).bind (appendAll validExts files) := List.foldlM_cons
    rw [hcons]
    cases hvalid : valid validExts file with
    | false =>
      rw [List.filter_cons_of_neg (by simp [hvalid]), appendFile_of_not_valid hvalid]
      exact ih h
    | true =>
      rw [List.filter_cons_of_pos hvalid, List.forall_mem_cons]
      have hpacked : packed st.bin.length (file :: files.filter (valid validExts)) =
          packed (st.bin.length + padding st.bin.length + file.content.length)
            (files.filter (valid validExts)) := rfl
      have hle := le_packed (st.bin.length + padding st.bin.length + file.content.length)
        (files.filter (valid validExts))
      cases happend : appendFile validExts st file with
      | none =>
        -- the name is too long, or the block is too large now and grows on
        have hfail : ¬ (appendFile validExts st file).isSome := by
          rw [happend]
          exact Bool.false_ne_true
        rw [isSome_appendFile hvalid] at hfail
        refine ⟨iff_of_false Bool.false_ne_true fun hall => hfail ⟨hall.1.1, ?_⟩, ?_⟩
        · rw [hpacked] at hall
          omega
        · intro st' hst
          cases hst
      | some st₁ =>
        obtain ⟨hlayout, hlength⟩ := h.append hvalid happend
        have hshort := ((isSome_appendFile hvalid).mp (by rw [happend]; rfl)).1
        obtain ⟨ihsome, ihlayout⟩ := ih hlayout
        rw [hpacked, ← hlength]
        refine ⟨?_, fun st' hst => ?_⟩
        · rw [Option.bind_some, ihsome]
          exact ⟨fun hall => ⟨⟨hshort, hall.1⟩, hall.2⟩, fun hall => ⟨hall.1.2, hall.2⟩⟩
        · have hdone := ihlayout st' hst
          rwa [List.append_assoc] at hdone

end Walk

/-! ## Reading the directory -/

section Reader

variable {data : Bytes} {directory : List FsEntry} {found : List Found} {i fuel : Nat}

/-- What the reader makes of an entry. -/
structure Reads (data : Bytes) (entry : FsEntry) (e : Found) : Prop where
  named : entry.fname.val.head? ≠ some 0
  name : cStringAt entry.fname.val 0 = some e.name
  offset : e.offset = entry.offset.toNat
  content : slice data (8 + entry.offset.toNat) entry.size.toNat = some e.content

theorem terminator_unnamed : terminator.fname.val.head? = some 0 := by decide

/-- The reader goes through the entries and stops at the one without a name. -/
theorem dumpFrom_eq (h : List.Forall₂ (Reads data) directory found)
    (hentries : ∀ k entry, directory[k]? = some entry →
      fsEntry.read data (8 + fsEntry.size * (i + k)) = some entry)
    (hend : fsEntry.read data (8 + fsEntry.size * (i + directory.length)) = some terminator)
    (hfuel : directory.length < fuel) : dumpFrom data fuel i = some found := by
  induction h generalizing i fuel with
  | nil =>
    obtain ⟨fuel, rfl⟩ : ∃ n, fuel = n + 1 := Nat.exists_eq_succ_of_ne_zero (by omega)
    rw [List.length_nil, Nat.add_zero] at hend
    rw [dumpFrom, hend]
    simp [terminator_unnamed]
  | @cons entry e directory found hread _ ih =>
    obtain ⟨fuel, rfl⟩ : ∃ n, fuel = n + 1 := Nat.exists_eq_succ_of_ne_zero (by omega)
    rw [List.length_cons] at hfuel hend
    have hfirst : fsEntry.read data (8 + fsEntry.size * i) = some entry := hentries 0 entry rfl
    have hnext : dumpFrom data fuel (i + 1) = some found := by
      refine ih (fun k entry' hk => ?_) ?_ (by omega)
      · rw [Nat.add_assoc i 1 k, Nat.add_comm 1 k]
        exact hentries (k + 1) entry' hk
      · rw [Nat.add_assoc i 1, Nat.add_comm 1]
        exact hend
    rw [dumpFrom]
    simp only [hfirst, hread.name, hread.content, hnext, Option.bind_eq_bind, Option.bind_some]
    rw [if_neg hread.named, ← hread.offset]

end Reader

/-! ## The data -/

section Data

variable {st : State} {files : List SourceFile} {file : SourceFile} {entry : FsEntry}

/-- The name in the entry is that of the file. -/
theorem cStringAt_fnameOf {storename : Text} (h : storename.bytes.length ≤ 255) :
    cStringAt (fnameOf storename).val 0 = some storename.bytes := by
  have htake : storename.bytes.take 255 = storename.bytes := List.take_of_length_le h
  have hzero : List.replicate (256 - storename.bytes.length) (0 : UInt8) =
      0 :: List.replicate (255 - storename.bytes.length) 0 := by
    rw [← List.replicate_succ]
    congr 1
    omega
  have hat : At (fnameOf storename).val 0 (storename.bytes ++ [0]) := by
    refine ⟨[], List.replicate (255 - storename.bytes.length) 0, ?_, rfl⟩
    simp only [fnameOf, htake, hzero, List.nil_append, List.append_assoc, List.singleton_append]
  exact hat.cStringAt storename.noNul

theorem head_fnameOf {storename : Text} (hne : storename.bytes ≠ []) :
    (fnameOf storename).val.head? ≠ some 0 := by
  obtain ⟨bytes, noNul⟩ := storename
  cases bytes with
  | nil => exact absurd rfl hne
  | cons b bs =>
    intro hhead
    have hb : b = 0 := Option.some.inj hhead
    exact noNul (hb ▸ List.mem_cons_self)

/-- The bytes behind the size: the directory with its terminator, and the block. -/
def blob (st : State) : Bytes :=
  fsEntry.encodeAll (fixOffsets st.directory ++ [terminator]) ++ st.bin

theorem length_blob (st : State) :
    (blob st).length = fsEntry.size * (st.directory.length + 1) + st.bin.length := by
  unfold blob fixOffsets
  rw [List.length_append, Codec.length_encodeAll, List.length_append, List.length_map,
    List.length_singleton]

/-- The content of a file in the data, at the offset of the entry after the fix. -/
theorem Laid.fixed (h : Laid st.bin entry file)
    (hsmall : fsEntry.size * (st.directory.length + 1) + st.bin.length ≤ ptrdiffMax) :
    (entry.offset + BitVec.ofNat 64 (fsEntry.size * (st.directory.length + 1))).toNat =
        fsEntry.size * (st.directory.length + 1) + entry.offset.toNat ∧
      At (blob st) (fsEntry.size * (st.directory.length + 1) + entry.offset.toNat)
        file.content := by
  have hend := h.end_le
  unfold ptrdiffMax at hsmall
  constructor
  · rw [BitVec.toNat_add, BitVec.toNat_ofNat, Nat.add_mod_mod, Nat.mod_eq_of_lt (by omega),
      Nat.add_comm]
  · have hat := h.content.prepend (fsEntry.encodeAll (fixOffsets st.directory ++ [terminator]))
    rwa [Codec.length_encodeAll, List.length_append, fixOffsets, List.length_map,
      List.length_singleton] at hat

/-- The entry with the offset from the start of the directory. -/
def FsEntry.fix (base : Nat) (entry : FsEntry) : FsEntry :=
  { entry with offset := entry.offset + BitVec.ofNat 64 base }

/-- What the reader finds at an entry. -/
def foundOf (entry : FsEntry) (file : SourceFile) : Found where
  name := file.storename.bytes
  offset := entry.offset.toNat
  content := file.content

/-- Entries that are laid out for the files are read as these files. -/
theorem reads_files {data bin : Bytes} {base : Nat} {directory : List FsEntry}
    (h : List.Forall₂ (Laid bin) directory files)
    (hread : ∀ entry file, file ∈ files → Laid bin entry file →
      Reads data (entry.fix base) (foundOf (entry.fix base) file)) :
    ∃ found, List.Forall₂ (Reads data) (directory.map (FsEntry.fix base)) found ∧
      found.map (fun e => (e.name, e.content)) =
        files.map (fun file => (file.storename.bytes, file.content)) ∧
      found.map (fun e => (e.offset, e.content.length)) =
        directory.map (fun entry => ((entry.fix base).offset.toNat, entry.size.toNat)) := by
  induction h with
  | nil => exact ⟨[], .nil, rfl, rfl⟩
  | @cons entry file directory files hlaid _ ih =>
    obtain ⟨found, hreads, hfiles, hranges⟩ :=
      ih fun entry file hfile => hread entry file (List.mem_cons_of_mem _ hfile)
    refine ⟨foundOf (entry.fix base) file :: found, ?_, ?_, ?_⟩
    · exact .cons (hread entry file List.mem_cons_self hlaid) hreads
    · rw [List.map_cons, List.map_cons, hfiles]
      rfl
    · rw [List.map_cons, List.map_cons, hranges, hlaid.size]
      rfl

end Data

mutual

theorem Tree.storename_ne_nil : ∀ (tree : Tree) (path outpath : Text), tree.isDir = true →
    ∀ file ∈ tree.allFiles path outpath, file.storename.bytes ≠ []
  | .file _, _, _, hdir => by cases hdir
  | .dir entries, path, outpath, _ => by
    rw [Tree.allFiles]
    exact allEntries_storename entries _ _

/-- A file is stored under a name, which ends with its own. -/
theorem allEntries_storename : ∀ (entries : List (FileName × Tree)) (p op : Text),
    ∀ file ∈ allEntries entries p op, file.storename.bytes ≠ []
  | [], _, _ => by
    rw [allEntries]
    exact fun file hfile => absurd hfile List.not_mem_nil
  | (name, .file content) :: entries, p, op => by
    rw [allEntries]
    intro file hfile
    rcases List.mem_cons.mp hfile with rfl | hfile
    · exact fun hnil => name.nonempty (List.append_eq_nil_iff.mp hnil).2
    · exact allEntries_storename entries p op file hfile
  | (name, .dir sub) :: entries, p, op => by
    rw [allEntries]
    intro file hfile
    rcases List.mem_append.mp hfile with hfile | hfile
    · change file ∈ if name.hidden then [] else (Tree.dir sub).allFiles _ _ at hfile
      split at hfile
      · cases hfile
      · exact Tree.storename_ne_nil (.dir sub) _ _ rfl file hfile
    · exact allEntries_storename entries p op file hfile

end

/-! ## The round trip -/

/-- The size of the data without the number that says it. -/
def dataSize (files : List SourceFile) : Nat :=
  packed 0 files + fsEntry.size * (files.length + 1)

theorem layout_init : Layout {} [] := ⟨.nil, .nil, by decide⟩

/-- `main` as a function of the files of the walk. -/
theorem buildData_spec (validExts : List Bytes) (entries : List (FileName × Tree))
    (inPath roPath : Text) :
    let files := ((Tree.dir entries).files inPath roPath).filter (valid validExts)
    ((buildData validExts entries inPath roPath).isSome ↔
      (∀ file ∈ files, file.storename.bytes.length ≤ 255) ∧ dataSize files + 8 ≤ ptrdiffMax) ∧
    ∀ data, buildData validExts entries inPath roPath = some data →
      ∃ st, Layout st files ∧ dataSize files + 8 ≤ ptrdiffMax ∧
        (blob st).length = dataSize files ∧ data = le 8 (dataSize files) ++ blob st := by
  intro files
  obtain ⟨hsome, hlayout⟩ : _ ∧ ∀ st',
      appendAll validExts ((Tree.dir entries).files inPath roPath) {} = some st' →
        Layout st' files ∧ st'.bin.length = packed 0 files :=
    appendAll_spec ((Tree.dir entries).files inPath roPath) layout_init
  unfold buildData
  rw [addDirectory_eq]
  cases hst : appendAll validExts ((Tree.dir entries).files inPath roPath) {} with
  | none =>
    -- the directory only adds to the size that was too large
    have hfail := hsome.not.mp (by rw [hst]; exact Bool.false_ne_true)
    refine ⟨iff_of_false Bool.false_ne_true fun hall => hfail ⟨hall.1, ?_⟩, fun data hdata => ?_⟩
    · have hle : packed 0 files + 8 ≤ dataSize files + 8 := by
        unfold dataSize
        omega
      exact Nat.le_trans (Nat.le_add_right _ 8) (hle.trans hall.2)
    · cases hdata
  | some st =>
    obtain ⟨hfiles, hbin⟩ := hlayout st hst
    have hall := hsome.mp (by rw [hst]; rfl)
    have hlength : (blob st).length = dataSize files := by
      rw [length_blob, hfiles.laid.length_eq, hbin, dataSize, Nat.add_comm]
    have hsize : st.bin.length + fsEntry.size * (fixOffsets st.directory ++ [terminator]).length =
        dataSize files := by
      rw [← hlength, blob, ← Codec.length_encodeAll, List.length_append, Nat.add_comm]
    simp only [Option.bind_eq_bind, Option.bind_some, hsize]
    by_cases hfits : dataSize files + 8 > ptrdiffMax
    · rw [if_pos hfits]
      exact ⟨iff_of_false Bool.false_ne_true fun h => by omega, fun data hdata => by cases hdata⟩
    · rw [if_neg hfits]
      refine ⟨iff_of_true rfl ⟨hall.1, by omega⟩, fun data hdata => ?_⟩
      exact ⟨st, hfiles, by omega, hlength, (Option.some.inj hdata).symm⟩

/-- The entry of a file is read as the file. -/
theorem reads_laid {st : State} {files : List SourceFile} {data : Bytes}
    (hsmall : fsEntry.size * (st.directory.length + 1) + st.bin.length ≤ ptrdiffMax)
    (hne : ∀ file ∈ files, file.storename.bytes ≠ []) (hblob : At data 8 (blob st))
    (entry : FsEntry) (file : SourceFile) (hfile : file ∈ files) (hlaid : Laid st.bin entry file) :
    Reads data (entry.fix (fsEntry.size * (st.directory.length + 1)))
      (foundOf (entry.fix (fsEntry.size * (st.directory.length + 1))) file) := by
  obtain ⟨hoffset, hat⟩ := hlaid.fixed hsmall
  refine ⟨?_, ?_, rfl, ?_⟩
  · rw [FsEntry.fix, hlaid.fname]
    exact head_fnameOf (hne file hfile)
  · rw [FsEntry.fix, hlaid.fname]
    exact cStringAt_fnameOf hlaid.short
  · rw [FsEntry.fix, hoffset, hlaid.size]
    exact (hblob.trans hat).slice

/-- The reader goes through the directory of the data. -/
theorem dumpFiles_eq {st : State} {data : Bytes} {found : List Found}
    (hsmall : (blob st).length ≤ ptrdiffMax) (hdata : data = le 8 (blob st).length ++ blob st)
    (hreads : List.Forall₂ (Reads data) (fixOffsets st.directory) found) :
    dumpFiles data = some found ∧
      fsEntry.read data (8 + fsEntry.size * st.directory.length) = some terminator := by
  have hblob : At data 8 (blob st) := by
    have hright := at_right (le 8 (blob st).length) (blob st)
    rwa [length_le, ← hdata] at hright
  have hentries : ∀ k entry, (fixOffsets st.directory ++ [terminator])[k]? = some entry →
      fsEntry.read data (8 + fsEntry.size * k) = some entry :=
    fun k entry hk => (hblob.left.item hk).read
  have hcount : (fixOffsets st.directory).length = st.directory.length := List.length_map _
  have hend : fsEntry.read data (8 + fsEntry.size * st.directory.length) = some terminator := by
    refine hentries _ _ ?_
    rw [List.getElem?_append_right hcount.le, hcount, Nat.sub_self]
    rfl
  have hnat : (BitVec.ofNat 64 (blob st).length).toNat = (blob st).length := by
    unfold ptrdiffMax at hsmall
    exact toNat_ofNat_of_lt (by omega)
  have hsize : (Codec.word 8).read data 0 = some (BitVec.ofNat 64 (blob st).length) := by
    refine At.read ?_
    change At data 0 (le 8 (BitVec.ofNat 64 (blob st).length).toNat)
    rw [hnat, hdata]
    exact at_left _ _
  -- the data has more bytes than the directory has entries, so that the rounds suffice
  have hrounds : st.directory.length < (blob st).length := by
    have hpos : 1 ≤ fsEntry.size := by decide
    have hmul := Nat.mul_le_mul_right (st.directory.length + 1) hpos
    rw [length_blob]
    omega
  refine ⟨?_, hend⟩
  unfold dumpFiles
  rw [hsize, Option.bind_eq_bind, Option.bind_some, hnat]
  refine dumpFrom_eq hreads (fun k entry hk => ?_) ?_ ?_
  · rw [Nat.zero_add]
    refine hentries k entry (Eq.trans (List.getElem?_append_left ?_) hk)
    exact (List.getElem?_eq_some_iff.mp hk).1
  · rw [Nat.zero_add, hcount]
    exact hend
  · rw [hcount]
    exact hrounds

/-- The contents start at multiples of 8, behind the directory and one behind the other, and end in
the data. -/
theorem Layout.ranges {st : State} {files : List SourceFile} {found : List Found}
    (h : Layout st files)
    (hsmall : fsEntry.size * (st.directory.length + 1) + st.bin.length ≤ ptrdiffMax)
    (hranges : found.map (fun e => (e.offset, e.content.length)) =
      st.directory.map fun entry =>
        ((entry.fix (fsEntry.size * (st.directory.length + 1))).offset.toNat, entry.size.toNat)) :
    (∀ e ∈ found, 8 ∣ e.offset ∧ fsEntry.size * (st.directory.length + 1) ≤ e.offset ∧
      e.offset + e.content.length ≤ (blob st).length) ∧
    found.Pairwise (fun e e' => e.offset + e.content.length ≤ e'.offset) := by
  have hfixed : ∀ entry ∈ st.directory, ∃ file, Laid st.bin entry file ∧
      (entry.fix (fsEntry.size * (st.directory.length + 1))).offset.toNat =
        fsEntry.size * (st.directory.length + 1) + entry.offset.toNat := by
    intro entry hentry
    obtain ⟨file, hlaid⟩ := h.exists_laid hentry
    exact ⟨file, hlaid, (hlaid.fixed hsmall).1⟩
  constructor
  · intro e he
    obtain ⟨entry, hentry, hrange⟩ := List.mem_map.mp (hranges ▸ List.mem_map_of_mem he)
    obtain ⟨hoffset, hcontent⟩ := Prod.mk.inj hrange
    obtain ⟨file, hlaid, hfix⟩ := hfixed entry hentry
    have hend := hlaid.end_le
    have hdvd : 8 ∣ fsEntry.size * (st.directory.length + 1) := Dvd.dvd.mul_right (by decide) _
    rw [hfix] at hoffset
    refine ⟨hoffset ▸ Nat.dvd_add hdvd hlaid.aligned, ?_, ?_⟩
    · rw [← hoffset]
      exact Nat.le_add_right _ _
    · rw [length_blob]
      omega
  · -- the entries are in order, and all are moved by the size of the directory
    have hpairs : (found.map fun e => (e.offset, e.content.length)).Pairwise
        fun x y => x.1 + x.2 ≤ y.1 := by
      rw [hranges, List.pairwise_map]
      refine h.ordered.imp_of_mem fun hentry hentry' hle => ?_
      obtain ⟨-, -, hfix⟩ := hfixed _ hentry
      obtain ⟨-, -, hfix'⟩ := hfixed _ hentry'
      rw [hfix, hfix']
      omega
    exact List.pairwise_map.mp hpairs

/-- **The round trip.** The walk has each file that is not in a hidden directory once. The data is
there unless a name is too long or the sizes are too large for the memory, and then the reader
finds the accepted files in the order of the walk, each under its stored path and with its content.
The contents start at multiples of 8, lie behind the directory, one behind the other, in the data,
and the reader stops at the terminator behind the last entry. -/
theorem rofs_round_trip (validExts : List Bytes) {entries : List (FileName × Tree)}
    (hwf : (Tree.dir entries).WellFormed) (inPath roPath : Text) :
    let files := ((Tree.dir entries).files inPath roPath).filter (valid validExts)
    files.Perm (((Tree.dir entries).allFiles inPath roPath).filter (valid validExts)) ∧
    ((buildData validExts entries inPath roPath).isSome ↔
      (∀ file ∈ files, file.storename.bytes.length ≤ 255) ∧ dataSize files + 8 ≤ ptrdiffMax) ∧
    ∀ data, buildData validExts entries inPath roPath = some data →
      ∃ found, dumpFiles data = some found ∧
        found.map (fun e => (e.name, e.content)) =
          files.map (fun file => (file.storename.bytes, file.content)) ∧
        (∀ e ∈ found, 8 ∣ e.offset ∧ fsEntry.size * (found.length + 1) ≤ e.offset ∧
          8 + e.offset + e.content.length ≤ data.length) ∧
        found.Pairwise (fun e e' => e.offset + e.content.length ≤ e'.offset) ∧
        fsEntry.read data (8 + fsEntry.size * found.length) = some terminator := by
  intro files
  have hperm := Tree.files_perm (.dir entries) inPath roPath hwf
  obtain ⟨hsome, hdata⟩ := buildData_spec validExts entries inPath roPath
  refine ⟨hperm.filter _, hsome, fun data hbuild => ?_⟩
  obtain ⟨st, hlayout, hfits, hlength, hall⟩ : ∃ st, Layout st files ∧
      dataSize files + 8 ≤ ptrdiffMax ∧ (blob st).length = dataSize files ∧
      data = le 8 (dataSize files) ++ blob st := hdata data hbuild
  rw [← hlength] at hall hfits
  have hsmall : fsEntry.size * (st.directory.length + 1) + st.bin.length ≤ ptrdiffMax := by
    rw [← length_blob]
    omega
  have hne : ∀ file ∈ files, file.storename.bytes ≠ [] := by
    intro file hfile
    exact Tree.storename_ne_nil (.dir entries) inPath roPath rfl file
      (hperm.mem_iff.mp (List.mem_of_mem_filter hfile))
  have hblob : At data 8 (blob st) := by
    have hright := at_right (le 8 (blob st).length) (blob st)
    rwa [length_le, ← hall] at hright
  obtain ⟨found, hreads, hfiles, hranges⟩ := reads_files hlayout.laid
    (reads_laid hsmall hne hblob)
  obtain ⟨hdump, hend⟩ := dumpFiles_eq (by omega) hall hreads
  obtain ⟨hin, hpairs⟩ := hlayout.ranges hsmall hranges
  have hcount : found.length = st.directory.length := by
    rw [← hreads.length_eq, List.length_map]
  have hlen : data.length = 8 + (blob st).length := by
    rw [hall, List.length_append, length_le]
  refine ⟨found, hdump, hfiles, fun e he => ?_, hpairs, hcount ▸ hend⟩
  obtain ⟨haligned, hbehind, hinside⟩ := hin e he
  rw [hcount, hlen]
  exact ⟨haligned, hbehind, by omega⟩

/-- The bytes of a text in ASCII. -/
def ascii (text : String) : Bytes := text.toList.map fun c => UInt8.ofNat c.toNat

/-- A directory with an empty file, a file of another extension, a hidden and another directory. -/
def sampleEntries : List (FileName × Tree) :=
  [(⟨⟨ascii "b.png", by decide⟩, by decide, by decide⟩, .file [1, 2, 3]),
    (⟨⟨ascii ".git", by decide⟩, by decide, by decide⟩,
      .dir [(⟨⟨ascii "x.png", by decide⟩, by decide, by decide⟩, .file [4])]),
    (⟨⟨ascii "d", by decide⟩, by decide, by decide⟩,
      .dir [(⟨⟨ascii "c.png", by decide⟩, by decide, by decide⟩, .file [9])]),
    (⟨⟨ascii "a.png", by decide⟩, by decide, by decide⟩, .file []),
    (⟨⟨ascii "notes", by decide⟩, by decide, by decide⟩, .file [7])]

theorem sampleEntries_wellFormed : (Tree.dir sampleEntries).WellFormed :=
  ⟨by decide, trivial, ⟨by decide, trivial, trivial⟩, ⟨by decide, trivial, trivial⟩, trivial,
    trivial, trivial⟩

theorem rofs_round_trip_sampleEntries : ∃ data found,
    buildData [ascii ".png"] sampleEntries ⟨ascii "in", by decide⟩ ⟨ascii "ro", by decide⟩ =
      some data ∧
    dumpFiles data = some found ∧ found.map (fun e => (e.name, e.content)) =
      [(ascii "ro/a.png", []), (ascii "ro/b.png", [1, 2, 3]), (ascii "ro/d/c.png", [9])] := by
  obtain ⟨-, hsome, hdata⟩ := rofs_round_trip [ascii ".png"] sampleEntries_wellFormed
    ⟨ascii "in", by decide⟩ ⟨ascii "ro", by decide⟩
  obtain ⟨data, hbuild⟩ := Option.isSome_iff_exists.mp (hsome.mpr ⟨by decide, by decide⟩)
  obtain ⟨found, hdump, hfiles, -⟩ := hdata data hbuild
  exact ⟨data, found, hbuild, hdump, hfiles.trans (by decide)⟩

end LumeBinaryCompile
