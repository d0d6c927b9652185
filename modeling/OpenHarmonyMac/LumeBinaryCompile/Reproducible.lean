import Mathlib.Data.List.Nodup
import OpenHarmonyMac.LumeBinaryCompile.Assets

/-!
# The order of `readdir`

`readdir` returns the entries of a directory in any order, and may use one record for all of them.

* `addDirectoryIn` — the walk with what `readdir` returns
* `addDirectoryIn_eq` — it is the walk over the directory as it is given
* `reproducible` — two orders make the same directory and the same bytes
-/

namespace LumeBinaryCompile

open Infra

/-! ## The code -/

/-- A record that `readdir` returns: where it lies, `d_name`, and `d_type == DT_DIR`. -/
structure Dirent where
  place : Nat
  name : FileName
  isDir : Bool
  deriving DecidableEq

/-- What a record stands for, among the entries of the directory. -/
def Dirent.entry? {α : Type} (entries : List (Entry α)) (r : Dirent) : Option (Entry α) :=
  (entries.find? (·.name = r.name)).map fun d => { d with isDir := r.isDir }

/-- A call of `readdir` writes its record, and the loop copies it from there into the set. -/
def readEntry {α : Type} (entries : List (Entry α)) (s : (Nat → Option Dirent) × List (Entry α))
    (r : Dirent) : (Nat → Option Dirent) × List (Entry α) :=
  let records := Function.update s.1 r.place (some r)
  (records, match (records r.place).bind (Dirent.entry? entries) with
    | none => s.2
    | some entry => insertEntry entry s.2)

/-- The set after all `readdir` calls. -/
def readSet {α : Type} (entries : List (Entry α)) (records : List Dirent) : List (Entry α) :=
  (records.foldl (readEntry entries) (fun _ => none, [])).2

mutual

/-- `AppendFile` of a file and `AddDirectory` of a directory, with what `readdir` returns for the
directory at a path. -/
def Tree.addIn (validExts : List Bytes) (readdir : Text → List Dirent) :
    Tree → Text → Text → State → Option State
  | .file content => fun filename storename st =>
    appendFile validExts st { filename, storename, content }
  | .dir entries => fun path outpath st =>
    (readSet (dotEntries some ++ addEntriesIn validExts readdir entries) (readdir path)).foldlM
      (fun st d => d.visit some path.withSlash outpath.withSlash st) st

def addEntriesIn (validExts : List Bytes) (readdir : Text → List Dirent) :
    List (FileName × Tree) → List (Entry (State → Option State))
  | [] => []
  | (name, tree) :: entries =>
    { name
      isDir := tree.isDir
      action := tree.addIn validExts readdir } :: addEntriesIn validExts readdir entries

end

/-- `AddDirectory` of the directory that the command line names. -/
def addDirectoryIn (validExts : List Bytes) (readdir : Text → List Dirent)
    (entries : List (FileName × Tree)) (path outpath : Text) (st : State) : Option State :=
  (Tree.dir entries).addIn validExts readdir path outpath st

/-- The entries of a directory, with `"."` and `".."`. -/
def listing (entries : List (FileName × Tree)) : List (FileName × Bool) :=
  (.dot, true) :: (.dotDot, true) :: entries.map fun entry => (entry.1, entry.2.isDir)

mutual

/-- For each directory of the tree `readdir` returns each entry once, in any order. -/
def Tree.Enumerated (readdir : Text → List Dirent) : Tree → Text → Prop
  | .file _ => fun _ => True
  | .dir entries => fun path =>
    ((readdir path).map fun r => (r.name, r.isDir)).Perm (listing entries) ∧
      EnumeratedEntries readdir entries path.withSlash

def EnumeratedEntries (readdir : Text → List Dirent) : List (FileName × Tree) → Text → Prop
  | [] => fun _ => True
  | (name, tree) :: entries => fun p =>
    tree.Enumerated readdir (p.append name.text) ∧ EnumeratedEntries readdir entries p

end

/-! ## The set -/

section Set

variable {α β : Type} {entries : List (Entry α)} {records : List Dirent}

/-- The record is copied before the next call. -/
theorem readSet_eq (entries : List (Entry α)) (records : List Dirent) :
    readSet entries records = (records.filterMap (Dirent.entry? entries)).foldl
      (fun ds entry => insertEntry entry ds) [] := by
  have hfold : ∀ s : (Nat → Option Dirent) × List (Entry α),
      (records.foldl (readEntry entries) s).2 = (records.filterMap (Dirent.entry? entries)).foldl
        (fun ds entry => insertEntry entry ds) s.2 := by
    induction records with
    | nil => exact fun s => rfl
    | cons r records ih =>
      intro s
      have hcopy : (Function.update s.1 r.place (some r) r.place).bind (Dirent.entry? entries) =
          r.entry? entries := by
        rw [Function.update_self]
        rfl
      rw [List.foldl_cons, ih, readEntry, List.filterMap_cons]
      dsimp only
      rw [hcopy]
      cases r.entry? entries <;> rfl
  exact hfold (fun _ => none, [])

theorem insertEntry_cons_lt {d x : Entry α} (h : d.name.text.bytes < x.name.text.bytes)
    (ds : List (Entry α)) : insertEntry d (x :: ds) = d :: x :: ds := if_pos h

theorem insertEntry_cons_gt {d x : Entry α} (h : x.name.text.bytes < d.name.text.bytes)
    (ds : List (Entry α)) : insertEntry d (x :: ds) = x :: insertEntry d ds :=
  (if_neg (List.lt_asymm h)).trans (if_pos h)

theorem insertEntry_cons_eq {d x : Entry α} (h : d.name = x.name) (ds : List (Entry α)) :
    insertEntry d (x :: ds) = x :: ds := by
  have hirrefl : ¬ x.name.text.bytes < x.name.text.bytes := List.lt_irrefl _
  rw [insertEntry, h, if_neg hirrefl, if_neg hirrefl]

/-- Two names are the same, or one comes first. -/
theorem FileName.trichotomy (a b : FileName) :
    a.text.bytes < b.text.bytes ∨ a = b ∨ b.text.bytes < a.text.bytes := by
  by_cases hlt : a.text.bytes < b.text.bytes
  · exact .inl hlt
  · by_cases hgt : b.text.bytes < a.text.bytes
    · exact .inr (.inr hgt)
    · exact .inr (.inl (FileName.eq_of_bytes (Std.Trichotomous.trichotomous _ _ hlt hgt)))

theorem insertEntry_comm_of_lt {d e : Entry α} (hlt : d.name.text.bytes < e.name.text.bytes)
    (ds : List (Entry α)) :
    insertEntry e (insertEntry d ds) = insertEntry d (insertEntry e ds) := by
  induction ds with
  | nil =>
    show insertEntry e [d] = insertEntry d [e]
    rw [insertEntry_cons_gt hlt, insertEntry_cons_lt hlt]
    rfl
  | cons x ds ih =>
    rcases d.name.trichotomy x.name with hd | hd | hd
    · rw [insertEntry_cons_lt hd, insertEntry_cons_gt hlt]
      rcases e.name.trichotomy x.name with he | he | he
      · rw [insertEntry_cons_lt he, insertEntry_cons_lt hlt]
      · rw [insertEntry_cons_eq he, insertEntry_cons_lt hd]
      · rw [insertEntry_cons_gt he, insertEntry_cons_lt hd]
    · rw [insertEntry_cons_eq hd, insertEntry_cons_gt (hd ▸ hlt), insertEntry_cons_eq hd]
    · have he := List.lt_trans hd hlt
      rw [insertEntry_cons_gt hd, insertEntry_cons_gt he, insertEntry_cons_gt he,
        insertEntry_cons_gt hd, ih]

/-- Two entries may come in any order, unless they are different ones of the same name. -/
theorem insertEntry_comm {d e : Entry α} (h : d.name = e.name → d = e) (ds : List (Entry α)) :
    insertEntry e (insertEntry d ds) = insertEntry d (insertEntry e ds) := by
  rcases d.name.trichotomy e.name with hlt | heq | hgt
  · exact insertEntry_comm_of_lt hlt ds
  · rw [h heq]
  · exact (insertEntry_comm_of_lt hgt ds).symm

/-- With different names, an entry is found by its name. -/
theorem find?_eq_some_of_mem (hnodup : (entries.map Entry.name).Nodup) {d : Entry α}
    (hd : d ∈ entries) : entries.find? (·.name = d.name) = some d := by
  induction entries with
  | nil => cases hd
  | cons e entries ih =>
    obtain ⟨hnew, hrest⟩ := List.nodup_cons.mp hnodup
    rcases List.mem_cons.mp hd with rfl | hd
    · exact List.find?_cons_of_pos (decide_eq_true rfl)
    · have hne : e.name ≠ d.name := fun heq => hnew (heq ▸ List.mem_map_of_mem hd)
      rw [List.find?_cons_of_neg (by simpa using hne)]
      exact ih hrest hd

/-- The records of a directory stand for its entries. -/
theorem entries_perm (hnodup : (entries.map Entry.name).Nodup)
    (hperm : (records.map fun r => (r.name, r.isDir)).Perm
      (entries.map fun d => (d.name, d.isDir))) :
    (records.filterMap (Dirent.entry? entries)).Perm entries := by
  let entryOf (p : FileName × Bool) : Option (Entry α) :=
    (entries.find? (·.name = p.1)).map fun d => { d with isDir := p.2 }
  have hself : (entries.map fun d => (d.name, d.isDir)).filterMap entryOf = entries := by
    rw [List.filterMap_map]
    refine (List.filterMap_congr fun d hd => ?_).trans List.filterMap_some
    show (entries.find? (·.name = d.name)).map _ = some d
    rw [find?_eq_some_of_mem hnodup hd]
    rfl
  have hmap := hperm.filterMap entryOf
  rw [hself, List.filterMap_map] at hmap
  exact hmap

/-- **The order of the records does not matter for the set.** -/
theorem readSet_eq_dirSet {skip : α}
    (hnodup : ((dotEntries skip ++ entries).map Entry.name).Nodup)
    (hperm : (records.map fun r => (r.name, r.isDir)).Perm
      ((dotEntries skip ++ entries).map fun d => (d.name, d.isDir))) :
    readSet (dotEntries skip ++ entries) records = dirSet skip entries := by
  have hentries := entries_perm hnodup hperm
  have hnames := (hentries.map Entry.name).nodup_iff.mpr hnodup
  rw [readSet_eq, dirSet]
  refine hentries.foldl_eq' (fun d hd e he ds => ?_) []
  exact insertEntry_comm (fun heq => List.inj_on_of_nodup_map hnames hd he heq) ds

/-- The entry as the loop over the set sees it. -/
def Entry.visited (skip : α) (p op : Text) (d : Entry α) : Entry α :=
  { d with action := fun _ _ => d.visit skip p op }

/-- What is done with the entries decides what the loop over the set does. -/
theorem foldlM_visit_congr {σ : Type} {es es' : List (Entry (σ → Option σ))} {p op : Text}
    (h : es.map (Entry.visited some p op) = es'.map (Entry.visited some p op)) (st : σ) :
    (dirSet some es).foldlM (fun st d => d.visit some p op st) st =
      (dirSet some es').foldlM (fun st d => d.visit some p op st) st := by
  have hset : ∀ es : List (Entry (σ → Option σ)),
      (dirSet some es).map (Entry.visited some p op) =
        ((dotEntries some).map (Entry.visited some p op) ++
          es.map (Entry.visited some p op)).foldl (fun ds entry => insertEntry entry ds) [] := by
    intro es
    rw [← List.map_append]
    exact (foldl_insertEntry_map (g := Entry.visited some p op) (fun _ => rfl) _ []).symm
  have hfold : ∀ ds : List (Entry (σ → Option σ)),
      ds.foldlM (fun st d => d.visit some p op st) st =
        (ds.map (Entry.visited some p op)).foldlM (fun st d => d.action p op st) st := by
    intro ds
    rw [List.foldlM_map]
    rfl
  rw [hfold, hfold, hset, hset, h]

end Set

/-! ## The walk -/

section Walk

variable {validExts : List Bytes} {readdir readdir' : Text → List Dirent}
  {entries : List (FileName × Tree)} {path outpath : Text}

theorem addEntriesIn_names (entries : List (FileName × Tree)) :
    (addEntriesIn validExts readdir entries).map Entry.name = entries.map Prod.fst := by
  induction entries with
  | nil => rfl
  | cons entry entries ih =>
    obtain ⟨name, tree⟩ := entry
    rw [addEntriesIn, List.map_cons, List.map_cons, ih]

theorem addEntriesIn_listing (entries : List (FileName × Tree)) :
    (dotEntries some ++ addEntriesIn validExts readdir entries).map
      (fun d : Entry (State → Option State) => (d.name, d.isDir)) = listing entries := by
  have hentries : (addEntriesIn validExts readdir entries).map
      (fun d : Entry (State → Option State) => (d.name, d.isDir)) =
        entries.map fun entry => (entry.1, entry.2.isDir) := by
    induction entries with
    | nil => rfl
    | cons entry entries ih =>
      obtain ⟨name, tree⟩ := entry
      rw [addEntriesIn, List.map_cons, List.map_cons, ih]
  rw [List.map_append, hentries]
  rfl

mutual

/-- What `readdir` returns does not matter for the walk. By induction on the tree. -/
theorem Tree.addIn_eq : ∀ (tree : Tree) (path outpath : Text), tree.WellFormed →
    tree.Enumerated readdir path →
    tree.addIn validExts readdir path outpath = tree.add validExts path outpath
  | .file content, _, _, _, _ => by
    rw [Tree.addIn, Tree.add]
  | .dir entries, path, outpath, hwf, henum => by
    rw [Tree.WellFormed] at hwf
    rw [Tree.Enumerated] at henum
    obtain ⟨hnodup, hsub⟩ := hwf
    have hnames : ((dotEntries some ++ addEntriesIn validExts readdir entries).map
        Entry.name).Nodup := by
      rw [List.map_append, addEntriesIn_names]
      exact hnodup
    have hset := readSet_eq_dirSet hnames (henum.1.trans (.of_eq (addEntriesIn_listing _).symm))
    funext st
    rw [Tree.addIn, Tree.add]
    dsimp only
    rw [hset]
    exact foldlM_visit_congr (addEntriesIn_eq entries _ _ hsub henum.2) st

theorem addEntriesIn_eq : ∀ (entries : List (FileName × Tree)) (p op : Text),
    WellFormedEntries entries → EnumeratedEntries readdir entries p →
    (addEntriesIn validExts readdir entries).map (Entry.visited some p op) =
      (addEntries validExts entries).map (Entry.visited some p op)
  | [], _, _, _, _ => by
    rw [addEntriesIn, addEntries]
  | (name, tree) :: entries, p, op, hwf, henum => by
    rw [WellFormedEntries] at hwf
    rw [EnumeratedEntries] at henum
    have htree := Tree.addIn_eq tree (p.append name.text) (op.append name.text) hwf.1 henum.1
    rw [addEntriesIn, addEntries, List.map_cons, List.map_cons,
      addEntriesIn_eq entries p op hwf.2 henum.2]
    simp only [Entry.visited, Entry.visit, htree]

end

/-- **The walk with what `readdir` returns is the walk over the entries as they are given.** -/
theorem addDirectoryIn_eq (hwf : (Tree.dir entries).WellFormed)
    (henum : (Tree.dir entries).Enumerated readdir path) (st : State) :
    addDirectoryIn validExts readdir entries path outpath st =
      addDirectory validExts entries path outpath st :=
  congrFun (Tree.addIn_eq (.dir entries) path outpath hwf henum) st

/-- **Reproducible blobs.** Two orders of the entries, at every level, make the same directory and
the same bytes, or both runs stop. -/
theorem reproducible (hwf : (Tree.dir entries).WellFormed)
    (henum : (Tree.dir entries).Enumerated readdir path)
    (henum' : (Tree.dir entries).Enumerated readdir' path) (st : State) :
    addDirectoryIn validExts readdir entries path outpath st =
      addDirectoryIn validExts readdir' entries path outpath st := by
  rw [addDirectoryIn_eq hwf henum, addDirectoryIn_eq hwf henum']

end Walk

/-- `a` and `b.t` -/
def nameA : FileName := ⟨⟨[97], by decide⟩, by decide, by decide⟩
def nameB : FileName := ⟨⟨[98, 46, 116], by decide⟩, by decide, by decide⟩

/-- A file next to a directory with another one. -/
def twoEntries : List (FileName × Tree) :=
  [(nameB, .file [1, 2]), (nameA, .dir [(nameB, .file [3])])]

/-- What `readdir` returns for it, in one record, and in the reverse order in four. -/
def oneRecord (path : Text) : List Dirent :=
  if path = .slash then [⟨0, nameB, false⟩, ⟨0, nameA, true⟩, ⟨0, .dot, true⟩, ⟨0, .dotDot, true⟩]
  else [⟨0, .dot, true⟩, ⟨0, nameB, false⟩, ⟨0, .dotDot, true⟩]

def fourRecords (path : Text) : List Dirent :=
  if path = .slash then [⟨3, .dotDot, true⟩, ⟨2, .dot, true⟩, ⟨1, nameA, true⟩, ⟨0, nameB, false⟩]
  else [⟨2, .dotDot, true⟩, ⟨1, nameB, false⟩, ⟨0, .dot, true⟩]

theorem reproducible_sample :
    addDirectoryIn [[46, 116]] oneRecord twoEntries .slash .slash {} =
      addDirectoryIn [[46, 116]] fourRecords twoEntries .slash .slash {} := by
  refine reproducible ?_ ?_ ?_ {}
  · exact ⟨by decide, trivial, ⟨by decide, trivial, trivial⟩, trivial⟩
  · exact ⟨by decide, trivial, ⟨by decide, trivial, trivial⟩, trivial⟩
  · exact ⟨by decide, trivial, ⟨by decide, trivial, trivial⟩, trivial⟩

end LumeBinaryCompile
