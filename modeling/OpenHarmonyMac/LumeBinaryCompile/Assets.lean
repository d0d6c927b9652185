import OpenHarmonyMac.Infra.Codec

/-!
# Collecting the assets

The asset compiler walks through a directory in the order of the names and appends each file of an
accepted extension to one block of bytes, with an entry for it in the directory of the block. A
directory is given by the order in which `readdir` returns it.

* `addDirectory` — the walk with the two globals `g_directory` and `g_bin`
* `addDirectory_eq` — it appends the files one after the other
* `files_perm` — each file of a directory that is not hidden occurs once
-/

namespace LumeBinaryCompile

open Infra

/-- A text without a NUL, such as the command line and the file system have them. -/
structure Text where
  bytes : Bytes
  noNul : 0 ∉ bytes
  deriving DecidableEq

namespace Text

/-- `operator+` -/
def append (s t : Text) : Text where
  bytes := s.bytes ++ t.bytes
  noNul := by
    intro h
    rcases List.mem_append.mp h with h | h
    · exact s.noNul h
    · exact t.noNul h

/-- `"/"` -/
def slash : Text := ⟨[47], by decide⟩

/-- A path that is not empty gets a slash at its end, if it has none. -/
def withSlash (path : Text) : Text :=
  if path.bytes = [] ∨ path.bytes.getLast? = some 47 then path else path.append slash

end Text

/-- A name in a directory. -/
structure FileName where
  text : Text
  nonempty : text.bytes ≠ []
  noSlash : 47 ∉ text.bytes
  deriving DecidableEq

/-- The name starts with a dot. -/
def FileName.hidden (name : FileName) : Bool := name.text.bytes.head? == some 46

/-- `"."` -/
def FileName.dot : FileName := ⟨⟨[46], by decide⟩, by decide, by decide⟩

/-- `".."` -/
def FileName.dotDot : FileName := ⟨⟨[46, 46], by decide⟩, by decide, by decide⟩

/-- A file with its content, or a directory with what `readdir` returns for it besides `"."` and
`".."`. -/
inductive Tree
  | file (content : Bytes)
  | dir (entries : List (FileName × Tree))

/-- A file that `AppendFile` is called with. -/
structure SourceFile where
  filename : Text
  storename : Text
  content : Bytes
  deriving DecidableEq

/-- `d_type == DT_DIR` -/
def Tree.isDir : Tree → Bool
  | .file _ => false
  | .dir _ => true

/-! ## The code -/

/-- `FsEntry` -/
structure FsEntry where
  fname : { bs : Bytes // bs.length = 256 }
  offset : BitVec 64
  size : BitVec 64
  deriving DecidableEq

/-- The globals `g_directory` and `g_bin`. -/
structure State where
  directory : List FsEntry := []
  bin : Bytes := []

/-- The largest size of an object: `resize` and `make_unique` throw when it is exceeded. -/
def ptrdiffMax : Nat := 2 ^ 63 - 1

/-- The text from the last dot on, or the empty one. -/
def extension (filename : Text) : Bytes :=
  if 46 ∈ filename.bytes then 46 :: (filename.bytes.reverse.takeWhile (· != 46)).reverse else []

/-- The extension is in `g_validExts`. -/
def valid (validExts : List Bytes) (file : SourceFile) : Bool :=
  validExts.contains (extension file.filename)

/-- `fname`: the first 255 bytes of the name, and zeros. -/
def fnameOf (storename : Text) : { bs : Bytes // bs.length = 256 } :=
  ⟨storename.bytes.take 255 ++ List.replicate (256 - (storename.bytes.take 255).length) 0, by
    rw [List.length_append, List.length_replicate, List.length_take]
    omega⟩

/-- The bytes up to the next multiple of 8. -/
def padding (size : Nat) : Nat := (8 - (size &&& 7)) &&& 7

/-- `AppendFile`, `none` where it exits or throws. The file is there, and does not change while it
is read. -/
def appendFile (validExts : List Bytes) (st : State) (file : SourceFile) : Option State :=
  if ¬ valid validExts file then some st
  else if file.storename.bytes.length > 255 then none
  else
    let offset := st.bin.length + padding st.bin.length
    let entry : FsEntry :=
      { fname := fnameOf file.storename
        offset := BitVec.ofNat 64 offset
        size := BitVec.ofNat 64 file.content.length }
    if offset + file.content.length > ptrdiffMax then none
    else
      some
        { directory := st.directory ++ [entry]
          bin := st.bin ++ List.replicate (padding st.bin.length) 0 ++ file.content }

/-- What `AddDirectory` keeps of a `dirent`, and what it does with it: with the path and the stored
path of the entry. -/
structure Entry (α : Type) where
  name : FileName
  isDir : Bool
  action : Text → Text → α

/-- `dirSet.insert`: a set in the order of the names, which keeps the first one of a name. -/
def insertEntry {α : Type} (entry : Entry α) : List (Entry α) → List (Entry α)
  | [] => [entry]
  | d :: dirSet =>
    if entry.name.text.bytes < d.name.text.bytes then entry :: d :: dirSet
    else if d.name.text.bytes < entry.name.text.bytes then d :: insertEntry entry dirSet
    else d :: dirSet

/-- The entries `"."` and `".."`, with which nothing is done. -/
def dotEntries {α : Type} (skip : α) : List (Entry α) :=
  [{ name := .dot, isDir := true, action := fun _ _ => skip },
    { name := .dotDot, isDir := true, action := fun _ _ => skip }]

/-- The set after all `readdir` calls. -/
def dirSet {α : Type} (skip : α) (entries : List (Entry α)) : List (Entry α) :=
  (dotEntries skip ++ entries).foldl (fun dirSet entry => insertEntry entry dirSet) []

/-- The body of the loop over the set. -/
def Entry.visit {α : Type} (skip : α) (p op : Text) (d : Entry α) : α :=
  if d.isDir && d.name.hidden then skip else d.action (p.append d.name.text) (op.append d.name.text)

mutual

/-- `AppendFile` of a file and `AddDirectory` of a directory. -/
def Tree.add (validExts : List Bytes) : Tree → Text → Text → State → Option State
  | .file content => fun filename storename st =>
    appendFile validExts st { filename, storename, content }
  | .dir entries => fun path outpath st =>
    (dirSet some (addEntries validExts entries)).foldlM
      (fun st d => d.visit some path.withSlash outpath.withSlash st) st

def addEntries (validExts : List Bytes) :
    List (FileName × Tree) → List (Entry (State → Option State))
  | [] => []
  | (name, tree) :: entries =>
    { name
      isDir := tree.isDir
      action := tree.add validExts } :: addEntries validExts entries

end

/-- `AddDirectory` of the directory that the command line names. -/
def addDirectory (validExts : List Bytes) (entries : List (FileName × Tree)) (path outpath : Text)
    (st : State) : Option State :=
  (Tree.dir entries).add validExts path outpath st

/-! ## The files of a tree -/

mutual

/-- The files in the order of the walk. -/
def Tree.files : Tree → Text → Text → List SourceFile
  | .file content => fun filename storename => [{ filename, storename, content }]
  | .dir entries => fun path outpath =>
    (dirSet [] (fileEntries entries)).flatMap (Entry.visit [] path.withSlash outpath.withSlash)

def fileEntries : List (FileName × Tree) → List (Entry (List SourceFile))
  | [] => []
  | (name, tree) :: entries =>
    { name
      isDir := tree.isDir
      action := tree.files } :: fileEntries entries

end

mutual

/-- All files that are not in a hidden directory, in the order in which they are given. -/
def Tree.allFiles : Tree → Text → Text → List SourceFile
  | .file content => fun filename storename => [{ filename, storename, content }]
  | .dir entries => fun path outpath => allEntries entries path.withSlash outpath.withSlash

def allEntries : List (FileName × Tree) → Text → Text → List SourceFile
  | [] => fun _ _ => []
  | (name, tree) :: entries => fun p op =>
    (match tree with
      | .file content =>
        [{ filename := p.append name.text, storename := op.append name.text, content }]
      | .dir _ =>
        if name.hidden then [] else tree.allFiles (p.append name.text) (op.append name.text)) ++
      allEntries entries p op

end

mutual

/-- The names in each directory are different, and none is `"."` or `".."`. -/
def Tree.WellFormed : Tree → Prop
  | .file _ => True
  | .dir entries => (.dot :: .dotDot :: entries.map Prod.fst).Nodup ∧ WellFormedEntries entries

def WellFormedEntries : List (FileName × Tree) → Prop
  | [] => True
  | (_, tree) :: entries => tree.WellFormed ∧ WellFormedEntries entries

end

/-! ## The extension -/

section Extension

variable {p : Text} {name : FileName} {validExts : List Bytes}

/-- A dot in the name is behind all dots of the directory. -/
theorem extension_append_of_dot (hdot : 46 ∈ name.text.bytes) :
    extension (p.append name.text) = extension name.text := by
  have hmem : 46 ∈ (p.append name.text).bytes := List.mem_append_right _ hdot
  have hstop : (name.text.bytes.reverse.takeWhile (· != 46)).length ≠
      name.text.bytes.reverse.length := by
    intro hlen
    have hall := List.takeWhile_eq_self_iff.mp
      ((List.takeWhile_sublist _).eq_of_length hlen) 46 (List.mem_reverse.mpr hdot)
    exact absurd hall (by decide)
  unfold extension
  rw [if_pos hmem, if_pos hdot, Text.append, List.reverse_append, List.takeWhile_append,
    if_neg hstop]

/-- Without a dot in the name, what looks like an extension goes through the slash in front of
it. -/
theorem extension_append_of_no_dot (hdot : 46 ∉ name.text.bytes)
    (hp : p.bytes = [] ∨ p.bytes.getLast? = some 47) :
    extension (p.append name.text) = [] ∨ 47 ∈ extension (p.append name.text) := by
  by_cases hmem : 46 ∈ (p.append name.text).bytes
  · right
    have hne : p.bytes ≠ [] := by
      intro hnil
      rcases List.mem_append.mp hmem with hpath | hname
      · exact absurd (hnil ▸ hpath) List.not_mem_nil
      · exact hdot hname
    have hlast := hp.resolve_left hne
    rw [← List.head?_reverse] at hlast
    obtain ⟨rest, hrest⟩ := List.head?_eq_some_iff.mp hlast
    unfold extension
    rw [if_pos hmem, Text.append, List.reverse_append, hrest]
    have hall : ∀ b ∈ name.text.bytes.reverse, (b != 46) = true := by
      intro b hb
      rw [bne_iff_ne]
      rintro rfl
      exact hdot (List.mem_reverse.mp hb)
    rw [List.takeWhile_append_of_pos hall, List.takeWhile_cons_of_pos (by decide)]
    simp
  · left
    exact if_neg hmem

/-- **The extension that decides is that of the name**, for a list of extensions that are not empty
and have no slash. -/
theorem valid_iff (hexts : ∀ ext ∈ validExts, ext ≠ [] ∧ 47 ∉ ext)
    (hp : p.bytes = [] ∨ p.bytes.getLast? = some 47) (storename : Text) (content : Bytes) :
    valid validExts { filename := p.append name.text, storename, content } = true ↔
      extension name.text ∈ validExts := by
  unfold valid
  rw [List.contains_iff_mem]
  by_cases hdot : 46 ∈ name.text.bytes
  · rw [extension_append_of_dot hdot]
  · have hname : extension name.text = [] := if_neg hdot
    rw [hname]
    refine iff_of_false (fun hmem => ?_) fun hmem => (hexts _ hmem).1 rfl
    obtain ⟨hne, hslash⟩ := hexts _ hmem
    rcases extension_append_of_no_dot hdot hp with hnil | hin
    · exact hne hnil
    · exact hslash hin

end Extension

/-! ## The set of the entries -/

section Entries

variable {α β : Type}

def Entry.map (f : α → β) (d : Entry α) : Entry β where
  name := d.name
  isDir := d.isDir
  action path outpath := f (d.action path outpath)

theorem Entry.visit_map (f : α → β) (skip : α) (p op : Text) (d : Entry α) :
    (d.map f).visit (f skip) p op = f (d.visit skip p op) := by
  unfold Entry.visit
  by_cases hskip : (d.isDir && d.name.hidden) = true
  · rw [if_pos hskip]
    exact if_pos hskip
  · rw [if_neg hskip]
    exact if_neg hskip

/-- The set goes by the names only. -/
theorem insertEntry_map {g : Entry α → Entry β} (hg : ∀ d, (g d).name = d.name) (entry : Entry α)
    (ds : List (Entry α)) : insertEntry (g entry) (ds.map g) = (insertEntry entry ds).map g := by
  induction ds with
  | nil => rfl
  | cons d ds ih =>
    rw [List.map_cons, insertEntry, insertEntry, ih, hg, hg]
    by_cases hlt : entry.name.text.bytes < d.name.text.bytes
    · rw [if_pos hlt, if_pos hlt]
      rfl
    · rw [if_neg hlt, if_neg hlt]
      by_cases hgt : d.name.text.bytes < entry.name.text.bytes
      · rw [if_pos hgt, if_pos hgt]
        rfl
      · rw [if_neg hgt, if_neg hgt]
        rfl

theorem foldl_insertEntry_map {g : Entry α → Entry β} (hg : ∀ d, (g d).name = d.name)
    (entries ds : List (Entry α)) :
    (entries.map g).foldl (fun ds entry => insertEntry entry ds) (ds.map g) =
      (entries.foldl (fun ds entry => insertEntry entry ds) ds).map g := by
  induction entries generalizing ds with
  | nil => rfl
  | cons entry entries ih =>
    rw [List.map_cons, List.foldl_cons, List.foldl_cons, insertEntry_map hg, ih]

/-- What is done with the entries does not matter for the set. -/
theorem dirSet_map (f : α → β) (skip : α) (entries : List (Entry α)) :
    dirSet (f skip) (entries.map (Entry.map f)) = (dirSet skip entries).map (Entry.map f) :=
  foldl_insertEntry_map (g := Entry.map f) (fun _ => rfl) (dotEntries skip ++ entries) []

theorem FileName.eq_of_bytes {a b : FileName} (h : a.text.bytes = b.text.bytes) : a = b := by
  obtain ⟨⟨a, _⟩, _, _⟩ := a
  obtain ⟨⟨b, _⟩, _, _⟩ := b
  cases h
  rfl

/-- A new name is added. -/
theorem insertEntry_perm (entry : Entry α) (ds : List (Entry α))
    (hnew : ∀ d ∈ ds, entry.name ≠ d.name) : (insertEntry entry ds).Perm (entry :: ds) := by
  induction ds with
  | nil => exact List.Perm.refl _
  | cons d ds ih =>
    obtain ⟨hd, hds⟩ := List.forall_mem_cons.mp hnew
    rw [insertEntry]
    split
    · exact List.Perm.refl _
    · split
      case isTrue => exact ((ih hds).cons d).trans (List.Perm.swap entry d ds)
      case isFalse hge hle =>
        exact absurd (FileName.eq_of_bytes (Std.Trichotomous.trichotomous _ _ hge hle)) hd

theorem foldl_insertEntry_perm (entries ds : List (Entry α))
    (hnodup : (entries.map Entry.name).Nodup)
    (hnew : ∀ entry ∈ entries, ∀ d ∈ ds, entry.name ≠ d.name) :
    (entries.foldl (fun ds entry => insertEntry entry ds) ds).Perm (entries ++ ds) := by
  induction entries generalizing ds with
  | nil => exact List.Perm.refl _
  | cons entry entries ih =>
    obtain ⟨hentry, hentries⟩ := List.nodup_cons.mp hnodup
    obtain ⟨hhead, htail⟩ := List.forall_mem_cons.mp hnew
    have hperm := insertEntry_perm entry ds hhead
    refine (ih _ hentries fun e he d hd => ?_).trans ((hperm.append_left entries).trans
      List.perm_middle)
    rcases List.mem_cons.mp (hperm.mem_iff.mp hd) with rfl | hd
    · exact fun heq => hentry (heq ▸ List.mem_map_of_mem he)
    · exact htail e he d hd

/-- With different names, the set has each entry once. The two that lead nowhere add nothing. -/
theorem dirSet_flatMap_perm {γ : Type} (entries : List (Entry (List γ))) (p op : Text)
    (hnodup : (.dot :: .dotDot :: entries.map Entry.name).Nodup) :
    ((dirSet [] entries).flatMap (Entry.visit [] p op)).Perm
      (entries.flatMap (Entry.visit [] p op)) := by
  have hnames : ((dotEntries [] ++ entries).map Entry.name).Nodup := by
    rw [List.map_append]
    exact hnodup
  have hperm := foldl_insertEntry_perm (dotEntries [] ++ entries) [] hnames
    fun _ _ d hd => absurd hd List.not_mem_nil
  rw [List.append_nil] at hperm
  exact hperm.flatMap_right _

end Entries

/-! ## The walk -/

/-- Appends the files one after the other. -/
def appendAll (validExts : List Bytes) (files : List SourceFile) (st : State) : Option State :=
  files.foldlM (appendFile validExts) st

theorem appendAll_append (validExts : List Bytes) (files files' : List SourceFile) (st : State) :
    appendAll validExts (files ++ files') st =
      (appendAll validExts files st).bind (appendAll validExts files') := by
  unfold appendAll
  rw [List.foldlM_append]
  rfl

theorem foldlM_appendAll (validExts : List Bytes) (lists : List (List SourceFile)) (st : State) :
    lists.foldlM (fun st files => appendAll validExts files st) st =
      appendAll validExts lists.flatten st := by
  induction lists generalizing st with
  | nil => rfl
  | cons files lists ih =>
    rw [List.foldlM_cons, List.flatten_cons, appendAll_append]
    cases appendAll validExts files st with
    | none => rfl
    | some st' => exact ih st'

mutual

/-- The walk appends the files of the tree. By induction on the tree: the set is the same one,
whatever is done with its entries. -/
theorem Tree.add_eq (validExts : List Bytes) : ∀ (tree : Tree) (path outpath : Text),
    tree.add validExts path outpath = appendAll validExts (tree.files path outpath)
  | .file content, filename, storename => by
    funext st
    rw [Tree.add, Tree.files, appendAll]
    cases h : appendFile validExts st { filename, storename, content } with
    | none => simp [h]
    | some st' => simp [h]
  | .dir entries, path, outpath => by
    funext st
    have hentries := addEntries_eq validExts entries
    have hset : dirSet some (addEntries validExts entries) =
        (dirSet [] (fileEntries entries)).map (Entry.map (appendAll validExts)) := by
      rw [hentries]
      exact dirSet_map (appendAll validExts) [] (fileEntries entries)
    simp only [Tree.add, Tree.files]
    rw [hset, List.foldlM_map, List.flatMap, ← foldlM_appendAll, List.foldlM_map]
    congr 1
    funext st d
    exact congrFun (Entry.visit_map (appendAll validExts) [] _ _ d) st

theorem addEntries_eq (validExts : List Bytes) : ∀ entries : List (FileName × Tree),
    addEntries validExts entries = (fileEntries entries).map (Entry.map (appendAll validExts))
  | [] => rfl
  | (name, tree) :: entries => by
    have htree : tree.add validExts = fun path outpath =>
        appendAll validExts (tree.files path outpath) := by
      funext path outpath
      exact Tree.add_eq validExts tree path outpath
    rw [addEntries, fileEntries, List.map_cons, addEntries_eq validExts entries, htree]
    rfl

end

/-- **The walk appends the files one after the other.** -/
theorem addDirectory_eq (validExts : List Bytes) (entries : List (FileName × Tree))
    (path outpath : Text) (st : State) :
    addDirectory validExts entries path outpath st =
      appendAll validExts ((Tree.dir entries).files path outpath) st :=
  congrFun (Tree.add_eq validExts (.dir entries) path outpath) st

theorem fileEntries_names (entries : List (FileName × Tree)) :
    (fileEntries entries).map Entry.name = entries.map Prod.fst := by
  induction entries with
  | nil => rfl
  | cons entry entries ih =>
    obtain ⟨name, tree⟩ := entry
    rw [fileEntries, List.map_cons, List.map_cons, ih]

mutual

/-- **Each file that is not in a hidden directory occurs once.** -/
theorem Tree.files_perm : ∀ (tree : Tree) (path outpath : Text), tree.WellFormed →
    (tree.files path outpath).Perm (tree.allFiles path outpath)
  | .file _, _, _, _ => by
    rw [Tree.files, Tree.allFiles]
  | .dir entries, path, outpath, hwf => by
    rw [Tree.WellFormed] at hwf
    rw [Tree.files, Tree.allFiles]
    rw [← fileEntries_names] at hwf
    exact (dirSet_flatMap_perm _ _ _ hwf.1).trans (fileEntries_perm entries _ _ hwf.2)

theorem fileEntries_perm : ∀ (entries : List (FileName × Tree)) (p op : Text),
    WellFormedEntries entries →
    ((fileEntries entries).flatMap (Entry.visit [] p op)).Perm (allEntries entries p op)
  | [], _, _, _ => by
    rw [fileEntries, allEntries]
    exact List.Perm.refl _
  | (name, .file content) :: entries, p, op, hwf => by
    rw [WellFormedEntries] at hwf
    rw [fileEntries, allEntries, List.flatMap_cons]
    exact (fileEntries_perm entries p op hwf.2).append_left _
  | (name, .dir sub) :: entries, p, op, hwf => by
    rw [WellFormedEntries] at hwf
    rw [fileEntries, allEntries, List.flatMap_cons]
    refine List.Perm.append ?_ (fileEntries_perm entries p op hwf.2)
    by_cases hidden : name.hidden = true
    · rw [if_pos hidden]
      exact List.Perm.of_eq (if_pos hidden)
    · rw [if_neg hidden]
      exact (List.Perm.of_eq (if_neg hidden)).trans (Tree.files_perm (.dir sub) _ _ hwf.1)

end

end LumeBinaryCompile
