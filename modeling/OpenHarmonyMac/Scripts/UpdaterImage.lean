import OpenHarmonyMac.Infra.Graph
import OpenHarmonyMac.Infra.PosixPath

/-!
# The libraries of the updater

`judge_updater_image.py` follows the libraries that `updater` needs, and those that they need, and
asks whether all of them are in the image. A library is known by its name, and lies where the last
file of that name was found.

* `judgeLibAvailable` — the search, `none` where the fuel has run out
* `judgeLibAvailable_iff` — it ends, and finds a path to a missing library if there is one
* `judgeUpdaterAvailable_iff` — the same of the files of an image
-/

namespace UpdaterImage

open Infra

abbrev Name := List Char

abbrev Path := List Char

/-- `lib_chain` and `available_libs`, which all calls share. -/
structure Search where
  libChain : List Name
  availableLibs : List Name := []
  deriving DecidableEq, Repr

/-- The loop of `judge_lib_available`, with the call in it. -/
def judgeNeeded (judge : Name → Search → Option (Bool × Search)) :
    List Name → Search → Option (Bool × Search)
  | [], s => some (true, s)
  | nextLib :: rest, s =>
    if s.libChain.contains nextLib then judgeNeeded judge rest s
    else
      match judge nextLib { s with libChain := s.libChain ++ [nextLib] } with
      | some (true, s) => judgeNeeded judge rest { s with libChain := s.libChain.erase nextLib }
      | result => result

section Judge

/- `get_needed_lib` asks `readelf`, which is not here. `libToPath` is a dictionary with the last
assignment first. -/
variable (getNeededLib : Path → List Name) (libToPath : List (Name × Path))

/-- `judge_lib_available` -/
def judgeLibAvailable : Nat → Name → Search → Option (Bool × Search)
  | 0, _, _ => none
  | fuel + 1, libName, s =>
    if s.availableLibs.contains libName then some (true, s)
    else
      match libToPath.lookup libName with
      | none => some (false, s)
      | some libPath =>
        match judgeNeeded (judgeLibAvailable fuel) (getNeededLib libPath) s with
        | some (true, s) => some (true, { s with availableLibs := libName :: s.availableLibs })
        | result => result

/-- The file of the first library needs the second one. -/
def Needs (a b : Name) : Prop :=
  ∃ libPath, libToPath.lookup a = some libPath ∧ b ∈ getNeededLib libPath

/-- There is a file of the library. -/
def HasFile (a : Name) : Prop := libToPath.lookup a ≠ none

end Judge

/-! ## The search -/

section Search

variable (getNeededLib : Path → List Name) (libToPath : List (Name × Path)) (start : Name)

/-- What a library needs that is known to be available is available, too, or on the path. -/
def Closed (s : Search) : Prop :=
  ∀ a ∈ s.availableLibs, HasFile libToPath a ∧
    ∀ b, Needs getNeededLib libToPath a b → b ∈ s.availableLibs ∨ b ∈ s.libChain

/-- The path leads from the start to the library. -/
structure Ready (s : Search) (libName : Name) : Prop where
  path : IsPath (Needs getNeededLib libToPath) start s.libChain
  last : s.libChain.getLast? = some libName
  closed : Closed getNeededLib libToPath s

/-- How a search ends that began in `s`: with the path as it was and what was asked for found, or
with a path to a missing library. -/
inductive Judged (s : Search) (Found : Search → Prop) : Bool × Search → Prop
  | available {s' : Search} (chain : s'.libChain = s.libChain)
      (closed : Closed getNeededLib libToPath s')
      (kept : s.availableLibs ⊆ s'.availableLibs) (found : Found s') : Judged s Found (true, s')
  | missing {s' : Search} {a : Name}
      (path : IsPath (Needs getNeededLib libToPath) start s'.libChain)
      (last : s'.libChain.getLast? = some a) (noFile : ¬ HasFile libToPath a) :
      Judged s Found (false, s')

/-- The files that are not on the path. -/
def unvisited (s : Search) : List (Name × Path) :=
  libToPath.filter fun e => !s.libChain.contains e.1

end Search

section Spec

variable {getNeededLib : Path → List Name} {libToPath : List (Name × Path)}
  {start libName next : Name} {s s' : Search}

theorem Ready.push (h : Ready getNeededLib libToPath start s libName)
    (hneeds : Needs getNeededLib libToPath libName next) :
    Ready getNeededLib libToPath start { s with libChain := s.libChain ++ [next] } next where
  path := h.path.concat h.last hneeds
  last := List.getLast?_concat
  closed a ha := by
    obtain ⟨hfile, hb⟩ := h.closed a ha
    exact ⟨hfile, fun b hneed => (hb b hneed).imp_right fun hb => List.mem_append_left _ hb⟩

/-- A library that was found may leave the path. -/
theorem Closed.pop (h : Closed getNeededLib libToPath s') (hnext : next ∈ s'.availableLibs)
    (hchain : s'.libChain = s.libChain ++ [next]) :
    Closed getNeededLib libToPath { s' with libChain := s.libChain } := by
  intro a ha
  obtain ⟨hfile, hb⟩ := h a ha
  refine ⟨hfile, fun b hneed => ?_⟩
  rcases hb b hneed with hb | hb
  · exact .inl hb
  · rw [hchain, List.mem_append, List.mem_singleton] at hb
    rcases hb with hb | rfl
    · exact .inr hb
    · exact .inl hnext

/-- Nothing is missing in what the loop has gone through, if the call in it says so. -/
theorem judgeNeeded_spec (judge : Name → Search → Option (Bool × Search)) (names : List Name)
    (hjudge : ∀ next t, next ∉ s.libChain → t.libChain = s.libChain ++ [next] →
      Ready getNeededLib libToPath start t next → ∃ r, judge next t = some r ∧
        Judged getNeededLib libToPath start t (next ∈ ·.availableLibs) r)
    (hs : Ready getNeededLib libToPath start s libName)
    (hnames : ∀ b ∈ names, Needs getNeededLib libToPath libName b) :
    ∃ r, judgeNeeded judge names s = some r ∧ Judged getNeededLib libToPath start s
      (fun s' => ∀ b ∈ names, b ∈ s'.availableLibs ∨ b ∈ s'.libChain) r := by
  induction names generalizing s with
  | nil => exact ⟨_, rfl, .available rfl hs.closed (List.Subset.refl _) (by simp)⟩
  | cons next rest ih =>
    have hrest := fun b hb => hnames b (List.mem_cons_of_mem _ hb)
    by_cases hmem : next ∈ s.libChain
    · obtain ⟨r, hr, hjudged⟩ := ih hjudge hs hrest
      refine ⟨r, by rw [judgeNeeded, if_pos (List.contains_iff_mem.mpr hmem), hr], ?_⟩
      cases hjudged with
      | missing path last noFile => exact .missing path last noFile
      | available chain closed kept found =>
        exact .available chain closed kept (List.forall_mem_cons.mpr ⟨.inr (chain ▸ hmem), found⟩)
    · obtain ⟨r, hr, hjudged⟩ := hjudge next _ hmem rfl (hs.push (hnames next List.mem_cons_self))
      rw [judgeNeeded, if_neg (mt List.contains_iff_mem.mp hmem), hr]
      cases hjudged with
      | missing path last noFile => exact ⟨_, rfl, .missing path last noFile⟩
      | @available t chain closed kept found =>
        -- the library is at the end of the path only, and goes from there
        have hpop : t.libChain.erase next = s.libChain := by
          rw [chain, List.erase_append_right _ hmem]
          simp
        have hs' : Ready getNeededLib libToPath start { t with libChain := s.libChain } libName :=
          ⟨hs.path, hs.last, closed.pop found chain⟩
        obtain ⟨r, hr, hjudged⟩ := ih (s := { t with libChain := s.libChain }) hjudge hs' hrest
        refine ⟨r, by simpa only [hpop] using hr, ?_⟩
        cases hjudged with
        | missing path last noFile => exact .missing path last noFile
        | available chain' closed' kept' found' =>
          exact .available chain' closed' (List.Subset.trans kept kept')
            (List.forall_mem_cons.mpr ⟨.inl (kept' found), found'⟩)

theorem unvisited_length_lt {t : Search} (hmem : next ∉ s.libChain)
    (hchain : t.libChain = s.libChain ++ [next]) (hfile : HasFile libToPath next) :
    (unvisited libToPath t).length < (unvisited libToPath s).length := by
  obtain ⟨path, hpath⟩ := Option.ne_none_iff_exists'.mp hfile
  obtain ⟨before, after, rfl, -⟩ := List.lookup_eq_some_iff.mp hpath
  have hle (l : List (Name × Path)) :
      (unvisited l t).length ≤ (unvisited l s).length := by
    refine (List.monotone_filter_right l fun e he => ?_).length_le
    simp_all
  have hb := hle before
  have ha := hle after
  have hs : s.libChain.contains next = false := by simpa using hmem
  have ht : t.libChain.contains next = true := by simp [hchain]
  simp only [unvisited, List.filter_append, List.length_append, List.filter_cons, hs, ht] at hb ha ⊢
  simp only [Bool.not_false, Bool.not_true, if_true, Bool.false_eq_true, if_false,
    List.length_cons]
  omega

theorem judgeLibAvailable_spec (fuel : Nat) (hpos : 0 < fuel)
    (hfuel : HasFile libToPath libName → (unvisited libToPath s).length + 2 ≤ fuel)
    (hs : Ready getNeededLib libToPath start s libName) :
    ∃ r, judgeLibAvailable getNeededLib libToPath fuel libName s = some r ∧
      Judged getNeededLib libToPath start s (libName ∈ ·.availableLibs) r := by
  induction fuel generalizing libName s with
  | zero => omega
  | succ fuel ih =>
    rw [judgeLibAvailable]
    split
    case isTrue hmem =>
      exact ⟨_, rfl, .available rfl hs.closed (List.Subset.refl _) (List.contains_iff_mem.mp hmem)⟩
    case isFalse =>
      cases hpath : libToPath.lookup libName with
      | none => exact ⟨_, rfl, .missing hs.path hs.last (by simp [HasFile, hpath])⟩
      | some libPath =>
        have hfile : HasFile libToPath libName := by simp [HasFile, hpath]
        specialize hfuel hfile
        have hneeds (b : Name) :
            Needs getNeededLib libToPath libName b ↔ b ∈ getNeededLib libPath := by
          simp [Needs, hpath]
        obtain ⟨r, hr, hjudged⟩ := judgeNeeded_spec
          (judgeLibAvailable getNeededLib libToPath fuel) (getNeededLib libPath)
          (fun next t hnext hchain ht => ih (by omega) (fun hfile => by
            have := unvisited_length_lt hnext hchain hfile
            omega) ht) hs fun b hb => (hneeds b).mpr hb
        simp only [hr]
        cases hjudged with
        | missing path last noFile => exact ⟨_, rfl, .missing path last noFile⟩
        | available chain closed kept found =>
          refine ⟨_, rfl, .available chain ?_ (List.Subset.trans kept (List.subset_cons_self _ _))
            List.mem_cons_self⟩
          rintro a ha
          rcases List.mem_cons.mp ha with rfl | ha
          · refine ⟨hfile, fun b hb => ?_⟩
            exact (found b ((hneeds b).mp hb)).imp_left (List.mem_cons_of_mem _)
          · obtain ⟨hfile, hb⟩ := closed a ha
            exact ⟨hfile, fun b hneed => (hb b hneed).imp_left (List.mem_cons_of_mem _)⟩

/-- What a search from the start means that found all, or a missing library. -/
theorem Judged.meaning {ok : Bool} (h : Judged getNeededLib libToPath start
      { libChain := [start] } (start ∈ ·.availableLibs) (ok, s')) :
    (ok = true ↔ ∀ a, Relation.ReflTransGen (Needs getNeededLib libToPath) start a →
        HasFile libToPath a) ∧
      (ok = false → ∃ a, IsPath (Needs getNeededLib libToPath) start s'.libChain ∧
        s'.libChain.getLast? = some a ∧ ¬ HasFile libToPath a) := by
  cases h with
  | available chain closed kept found =>
    refine ⟨iff_of_true rfl fun a ha => (closed a ?_).1, by simp⟩
    refine forall_reachable_of_closed found (fun x y hx hneed => ?_) ha
    -- on the path is the start alone, which was found
    rcases (closed x hx).2 y hneed with hy | hy
    · exact hy
    · rw [chain, List.mem_singleton] at hy
      exact hy ▸ found
  | missing path last noFile =>
    exact ⟨iff_of_false (by simp) fun hall => noFile (hall _ (path.reachable last)),
      fun _ => ⟨_, path, last, noFile⟩⟩

theorem judgeLibAvailable_start (getNeededLib : Path → List Name) (start : Name) {fuel : Nat}
    (hfuel : libToPath.length + 2 ≤ fuel) :
    ∃ ok s', judgeLibAvailable getNeededLib libToPath fuel start { libChain := [start] } =
        some (ok, s') ∧
      Judged getNeededLib libToPath start { libChain := [start] } (start ∈ ·.availableLibs)
        (ok, s') := by
  have hready : Ready getNeededLib libToPath start { libChain := [start] } start :=
    ⟨.single, rfl, by simp [Closed]⟩
  have hle : (unvisited libToPath { libChain := [start] }).length ≤ libToPath.length :=
    List.length_filter_le _ _
  obtain ⟨⟨ok, s'⟩, hr, hjudged⟩ := judgeLibAvailable_spec fuel (by omega) (by omega) hready
  exact ⟨ok, s', hr, hjudged⟩

/-- The search ends. It says yes when every library that the start needs, at any remove, has a
file, and leaves a path to one without a file when it says no. -/
theorem judgeLibAvailable_iff (getNeededLib : Path → List Name) (libToPath : List (Name × Path))
    (start : Name) {fuel : Nat} (hfuel : libToPath.length + 2 ≤ fuel) :
    ∃ ok s', judgeLibAvailable getNeededLib libToPath fuel start { libChain := [start] } =
        some (ok, s') ∧
      (ok = true ↔ ∀ a, Relation.ReflTransGen (Needs getNeededLib libToPath) start a →
        HasFile libToPath a) ∧
      (ok = false → ∃ a, IsPath (Needs getNeededLib libToPath) start s'.libChain ∧
        s'.libChain.getLast? = some a ∧ ¬ HasFile libToPath a) := by
  obtain ⟨ok, s', hr, hjudged⟩ := judgeLibAvailable_start getNeededLib start hfuel
  exact ⟨ok, s', hr, hjudged.meaning⟩

/-- Two libraries that need each other, and one of them a third. -/
def sampleNeeds (path : Path) : List Name :=
  if path = ['/', 'u'] then [['a'], ['b']]
  else if path = ['/', 'a'] then [['b']]
  else [['a'], ['c']]

def sampleLibs : List (Name × Path) :=
  [(['u'], ['/', 'u']), (['a'], ['/', 'a']), (['b'], ['/', 'b'])]

theorem judgeLibAvailable_sample :
    ∃ ok s', judgeLibAvailable sampleNeeds sampleLibs 5 ['u'] { libChain := [['u']] } =
        some (ok, s') ∧
      (ok = true ↔ ∀ a, Relation.ReflTransGen (Needs sampleNeeds sampleLibs) ['u'] a →
        HasFile sampleLibs a) ∧
      (ok = false → ∃ a, IsPath (Needs sampleNeeds sampleLibs) ['u'] s'.libChain ∧
        s'.libChain.getLast? = some a ∧ ¬ HasFile sampleLibs a) :=
  judgeLibAvailable_iff sampleNeeds sampleLibs ['u'] (by decide)

example : (judgeLibAvailable sampleNeeds sampleLibs 5 ['u'] { libChain := [['u']] }).map
    (fun r => (r.1, r.2.libChain)) = some (false, [['u'], ['a'], ['b'], ['c']]) := by
  decide

end Spec

/-! ## The files of an image -/

section Image

/- `walk` gives the directories below a path as `os.walk` does, with their files. -/
variable (getNeededLib : Path → List Name) (walk : Path → List (Path × List Name))

/-- The directories of the libraries, in the order in which they are searched -/
def libPaths (updaterRootPath : Path) : List Path :=
  [PosixPath.join updaterRootPath "lib64".toList, PosixPath.join updaterRootPath "lib".toList]

/-- `lib_to_path` -/
def libToPath (updaterRootPath : Path) : List (Name × Path) :=
  ("updater".toList,
      PosixPath.join (PosixPath.join updaterRootPath "bin".toList) "updater".toList) ::
    ((libPaths updaterRootPath).flatMap fun path => (walk path).flatMap fun dir =>
      dir.2.map fun file => (file, PosixPath.join dir.1 file)).reverse

def reason : List Char :=
  "Reason:  not allow updater to depend dynamic library which not exist in updater.img. ".toList

def solution : List Char :=
  "Solution:  add updater in install_images field when compiling ".toList

/-- `judge_updater_available`, with the lines that it prints -/
def judgeUpdaterAvailable (fuel : Nat) (updaterRootPath : Path) :
    Option (Bool × List (List Char)) :=
  match judgeLibAvailable getNeededLib (libToPath walk updaterRootPath) fuel "updater".toList
      { libChain := ["updater".toList] } with
  | none => none
  | some (true, _) => some (true, [])
  | some (false, s) => some (false,
      [reason ++ "->".toList.intercalate s.libChain, solution ++ s.libChain.getLast?.getD []])

variable {getNeededLib walk}

/-- A library has a file where a directory of the libraries holds one of its name. -/
theorem hasFile_libToPath_iff {updaterRootPath : Path} {a : Name} :
    HasFile (libToPath walk updaterRootPath) a ↔ a = "updater".toList ∨
      ∃ path ∈ libPaths updaterRootPath, ∃ dir ∈ walk path, a ∈ dir.2 := by
  have hkeys : HasFile (libToPath walk updaterRootPath) a ↔
      ∃ e ∈ libToPath walk updaterRootPath, a = e.1 := by
    simp [HasFile, List.lookup_eq_none_iff]
  rw [hkeys, libToPath, List.exists_mem_cons_iff]
  refine or_congr Iff.rfl ⟨?_, ?_⟩
  · rintro ⟨e, he, rfl⟩
    simp only [List.mem_reverse, List.mem_flatMap, List.mem_map] at he
    obtain ⟨path, hpath, dir, hdir, file, hfile, rfl⟩ := he
    exact ⟨path, hpath, dir, hdir, hfile⟩
  · rintro ⟨path, hpath, dir, hdir, hfile⟩
    refine ⟨(a, PosixPath.join dir.1 a), ?_, rfl⟩
    simp only [List.mem_reverse, List.mem_flatMap, List.mem_map]
    exact ⟨path, hpath, dir, hdir, a, hfile, rfl⟩

/-- An image is accepted when every library that the updater needs is in its directories. -/
theorem judgeUpdaterAvailable_iff {fuel : Nat} {updaterRootPath : Path}
    (hfuel : (libToPath walk updaterRootPath).length + 2 ≤ fuel) :
    ∃ ok printed, judgeUpdaterAvailable getNeededLib walk fuel updaterRootPath =
        some (ok, printed) ∧
      (ok = true ↔ ∀ a, Relation.ReflTransGen
          (Needs getNeededLib (libToPath walk updaterRootPath)) "updater".toList a →
        a = "updater".toList ∨
          ∃ path ∈ libPaths updaterRootPath, ∃ dir ∈ walk path, a ∈ dir.2) := by
  obtain ⟨ok, s', hr, hjudged⟩ := judgeLibAvailable_start getNeededLib "updater".toList hfuel
  simp only [← hasFile_libToPath_iff]
  rw [judgeUpdaterAvailable, hr]
  cases ok with
  | true => exact ⟨_, _, rfl, hjudged.meaning.1⟩
  | false => exact ⟨_, _, rfl, hjudged.meaning.1⟩

end Image

end UpdaterImage
