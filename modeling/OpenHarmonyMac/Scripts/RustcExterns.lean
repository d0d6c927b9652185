import OpenHarmonyMac.Infra.CString
import OpenHarmonyMac.Infra.PosixPath
import OpenHarmonyMac.Scripts.RustcDepfile

/-!
# The crates of the rustc wrapper

`convert_proc_macro_externs` of `rustc_wrapper.py` goes through the arguments of the compiler and
gives each crate that it names a file that the compiler can load. Which files there are does not
change meanwhile, and the copies that go with a new path are left out.

* `convertProcMacroExterns` — the loop over the arguments
* `getElem?_convertProcMacroExterns` — an argument changes only behind an `--extern`
* `convertProcMacroExterns_converted_iff` — when every crate gets a file that has its name
-/

namespace RustcWrapper

open Infra PosixPath

/-- The files, and where the wrapper runs. -/
structure Files where
  cwd : Path
  pathExists : Path → Bool
  absolute : cwd.head? = some '/'

def externKey : Text := "--extern".toList

/-- `'lib' + name + ending` -/
def libFile (name ending : Text) : Text := "lib".toList ++ (name ++ ending)

def rlib : Text := ".rlib".toList

def staticRlib : Text := "_static.rlib".toList

def dylib : Text := ".dylib".toList

def endsDylib (path : Path) : Bool := ".so".toList.isSuffixOf path || dylib.isSuffixOf path

def endsRlib (path : Path) : Bool := rlib.isSuffixOf path || ".rmeta".toList.isSuffixOf path

/-- `ext.split('=', 1)` -/
def splitExtern (ext : Text) : Option (Text × Path) :=
  if '=' ∈ ext then some (ext.takeWhile (· != '='), (ext.dropWhile (· != '=')).tail) else none

/-- `dirs` -/
def searchDirs (d : Path) : List Path :=
  d :: (if "lib.unstripped/".toList.isPrefixOf d then
      [d.drop "lib.unstripped/".toList.length] else []) ++
    (match strstr "/lib.unstripped/".toList d with
      | some (before, behind) => [before ++ '/' :: behind]
      | none => [])

section Convert

variable (files : Files)

/-- There is a file of the crate in the directory. -/
def Files.has (d : Path) (name ending : Text) : Bool :=
  files.pathExists (join d (libFile name ending))

/-- The two loops that set `rlib_path`. -/
def findRlib (name : Text) : List Path → Option Path
  | [] => none
  | dd :: dirs =>
    if files.has dd name rlib then some (join dd (libFile name rlib))
    else if files.has dd name staticRlib then some (join dd (libFile name staticRlib))
    else findRlib name dirs

/-- The directory of the file. -/
def Files.dirOf (path : Path) : Path := dirname (abspath files.cwd path)

/-- The value for a `.so` or `.dylib`. -/
def convertDylib (name : Text) (path : Path) : Path :=
  match findRlib files name (searchDirs (files.dirOf path)) with
  | some rlibPath => rlibPath
  | none =>
    if files.has files.cwd name rlib then join files.cwd (libFile name rlib)
    else join (files.dirOf path) (libFile name dylib)

/-- The value for a `.rlib` or `.rmeta`. -/
def convertRlib (name : Text) (path : Path) : Path :=
  if (libFile name []).isPrefixOf (basename (abspath files.cwd path)) then path
  else join (files.dirOf path) (libFile name rlib)

def convertPath (name : Text) (path : Path) : Path :=
  if endsDylib path then convertDylib files name path
  else if endsRlib path then convertRlib files name path
  else path

def convertExtern (ext : Text) : Text :=
  match splitExtern ext with
  | none => ext
  | some (name, path) => name ++ '=' :: convertPath files name path

/-- The argument names a crate and a file that is converted. -/
def handled (ext : Text) : Bool :=
  match splitExtern ext with
  | none => false
  | some (_, path) => endsDylib path || endsRlib path

/-- `convert_proc_macro_externs` -/
def convertProcMacroExterns : List Text → List Text
  | [] => []
  | [a] => [a]
  | a :: ext :: tokens =>
    if a = externKey ∧ handled ext then
      a :: convertExtern files ext :: convertProcMacroExterns tokens
    else a :: convertProcMacroExterns (ext :: tokens)

end Convert

/-! ## What the arguments should be -/

/-- A character of a crate name -/
def isIdent (c : Char) : Bool := c.isAlphanum || c == '_'

/-- A digit of a hash -/
def isHash (c : Char) : Bool := c.isDigit || ('a' ≤ c && c ≤ 'f')

/-- The `.rlib` of the crate, without a hash or with one that no name could go on with. -/
def NamedFor (name base : Text) : Prop :=
  base = libFile name rlib ∨ ∃ c hash, base = libFile name (c :: (hash ++ rlib)) ∧
    isIdent c = false ∧ hash ≠ [] ∧ ∀ h ∈ hash, isHash h = true

/-- The argument at `i` is an `--extern`, and the next one gives the crate a file. -/
structure IsPair (tokens : List Text) (i : Nat) (name : Text) (path : Path) : Prop where
  key : tokens[i]? = some externKey
  value : tokens[i + 1]? = some (name ++ '=' :: path)
  noEquals : '=' ∉ name

/-- Nothing changes but the files of crates, each `.rlib` or `.rmeta` has the name of its crate,
and there is nothing left to convert. -/
structure Converted (files : Files) (tokens : List Text) : Prop where
  length_eq : (convertProcMacroExterns files tokens).length = tokens.length
  others : ∀ i, (∀ j name path, IsPair tokens j name path → i ≠ j + 1) →
    (convertProcMacroExterns files tokens)[i]? = tokens[i]?
  names : ∀ i name path, IsPair tokens i name path →
    ∃ path', IsPair (convertProcMacroExterns files tokens) i name path'
  bases : ∀ i name path, IsPair (convertProcMacroExterns files tokens) i name path →
    endsRlib path = true → NamedFor name (basename path)
  again : convertProcMacroExterns files (convertProcMacroExterns files tokens) =
    convertProcMacroExterns files tokens

/-- The crate gets a file that has its name: the first directory with one of the two files has the
one without `_static`, a `.rlib` that is there has the name already or a name that does not begin
with it; and a slash in the name leads nowhere else. -/
def Convertible (files : Files) (name : Text) (path : Path) : Prop :=
  if endsDylib path then
    (∀ dd, (searchDirs (files.dirOf path)).find?
        (fun dd => files.has dd name rlib || files.has dd name staticRlib) = some dd →
      files.has dd name rlib = true) ∧
    ('/' ∈ name → (∀ dd ∈ searchDirs (files.dirOf path), files.has dd name rlib = false) ∧
      files.has files.cwd name rlib = false ∧
      files.dirOf (join (files.dirOf path) (libFile name dylib)) = files.dirOf path)
  else if endsRlib path then
    if (libFile name []).isPrefixOf (basename (abspath files.cwd path)) then
      NamedFor name (basename (abspath files.cwd path))
    else '/' ∉ name
  else True

/-! ## The loop -/

section Loop

variable {files : Files} {tokens : List Text} {name ext : Text} {path : Path} {i : Nat}

theorem splitExtern_append (hname : '=' ∉ name) (path : Path) :
    splitExtern (name ++ '=' :: path) = some (name, path) := by
  rw [splitExtern, if_pos (List.mem_append_right _ List.mem_cons_self),
    takeWhile_append_sep hname, dropWhile_append_sep hname]
  rfl

theorem splitExtern_eq_some (h : splitExtern ext = some (name, path)) :
    ext = name ++ '=' :: path ∧ '=' ∉ name := by
  unfold splitExtern at h
  split at h
  case isFalse => cases h
  case isTrue hmem =>
    obtain ⟨k, v, rfl, hk⟩ := List.eq_append_cons_of_mem hmem
    have hsplit := splitExtern_append hk v
    rw [splitExtern, if_pos hmem, h] at hsplit
    cases hsplit
    exact ⟨rfl, hk⟩

theorem convertExtern_append (hname : '=' ∉ name) (path : Path) :
    convertExtern files (name ++ '=' :: path) = name ++ '=' :: convertPath files name path := by
  rw [convertExtern, splitExtern_append hname]

theorem convertExtern_of_none (h : splitExtern ext = none) : convertExtern files ext = ext := by
  rw [convertExtern, h]

/-- What is not handled would not change. -/
theorem convertExtern_of_not_handled (h : handled ext = false) :
    convertExtern files ext = ext := by
  cases hsplit : splitExtern ext with
  | none => exact convertExtern_of_none hsplit
  | some e =>
    obtain ⟨name, path⟩ := e
    obtain ⟨rfl, hname⟩ := splitExtern_eq_some hsplit
    rw [handled, hsplit] at h
    obtain ⟨hdylib, hrlib⟩ := Bool.or_eq_false_iff.mp h
    rw [convertExtern_append hname, convertPath, hdylib, hrlib]
    rfl

theorem externKey_not_handled : handled externKey = false := by decide

theorem head_convertProcMacroExterns (files : Files) (tokens : List Text) :
    (convertProcMacroExterns files tokens)[0]? = tokens[0]? := by
  fun_cases convertProcMacroExterns files tokens <;> rfl

/-- **An argument changes only behind an `--extern`**, and does not depend on any other. -/
theorem getElem?_convertProcMacroExterns (files : Files) (tokens : List Text) (i : Nat) :
    (convertProcMacroExterns files tokens)[i + 1]? = if tokens[i]? = some externKey then
      tokens[i + 1]?.map (convertExtern files) else tokens[i + 1]? := by
  fun_induction convertProcMacroExterns files tokens generalizing i with
  | case1 => simp
  | case2 a => simp
  | case3 a ext tokens hext ih =>
    obtain ⟨rfl, hhandled⟩ := hext
    match i with
    | 0 => simp
    | 1 =>
      have hne : ext ≠ externKey := fun h => by simp [h, externKey_not_handled] at hhandled
      simp [hne, head_convertProcMacroExterns]
    | i + 2 => simpa using ih i
  | case4 a ext tokens hext ih =>
    match i with
    | 0 =>
      by_cases ha : a = externKey
      · have hhandled : handled ext = false := by simpa [ha] using hext
        simp [ha, head_convertProcMacroExterns, convertExtern_of_not_handled hhandled]
      · simp [ha, head_convertProcMacroExterns]
    | i + 1 => simpa using ih i

theorem length_convertProcMacroExterns (files : Files) (tokens : List Text) :
    (convertProcMacroExterns files tokens).length = tokens.length := by
  fun_induction convertProcMacroExterns files tokens <;> simp_all

theorem convertExtern_eq_key_iff : convertExtern files ext = externKey ↔ ext = externKey := by
  cases hsplit : splitExtern ext with
  | none => rw [convertExtern, hsplit]
  | some e =>
    obtain ⟨hext, -⟩ := splitExtern_eq_some hsplit
    have hne (s : Text) (p : Path) : s ++ '=' :: p ≠ externKey := by
      intro h
      have hmem : '=' ∈ externKey := h ▸ List.mem_append_right _ List.mem_cons_self
      exact absurd hmem (by decide)
    rw [convertExtern, hsplit, hext]
    exact iff_of_false (hne _ _) (hne _ _)

/-- The keys stay. -/
theorem key_convertProcMacroExterns_iff :
    (convertProcMacroExterns files tokens)[i]? = some externKey ↔
      tokens[i]? = some externKey := by
  cases i with
  | zero => rw [head_convertProcMacroExterns]
  | succ i =>
    rw [getElem?_convertProcMacroExterns]
    split
    · cases tokens[i + 1]? with
      | none => simp
      | some ext => simp [convertExtern_eq_key_iff]
    · rfl

theorem IsPair.convert (h : IsPair tokens i name path) :
    IsPair (convertProcMacroExterns files tokens) i name (convertPath files name path) where
  key := key_convertProcMacroExterns_iff.mpr h.key
  value := by
    rw [getElem?_convertProcMacroExterns, if_pos h.key, h.value, Option.map_some,
      convertExtern_append h.noEquals]
  noEquals := h.noEquals

/-- The pairs are those that there were, converted. -/
theorem isPair_convert_iff : IsPair (convertProcMacroExterns files tokens) i name path ↔
    ∃ path', IsPair tokens i name path' ∧ path = convertPath files name path' := by
  constructor
  · intro h
    have hkey := key_convertProcMacroExterns_iff.mp h.key
    have hvalue := h.value
    rw [getElem?_convertProcMacroExterns, if_pos hkey, Option.map_eq_some_iff] at hvalue
    obtain ⟨ext, hext, hconvert⟩ := hvalue
    have hsplit := congrArg splitExtern hconvert
    rw [splitExtern_append h.noEquals] at hsplit
    cases he : splitExtern ext with
    | none =>
      rw [convertExtern_of_none he, he] at hsplit
      cases hsplit
    | some e =>
      obtain ⟨rfl, hname⟩ := splitExtern_eq_some he
      rw [convertExtern_append hname, splitExtern_append hname] at hsplit
      cases hsplit
      exact ⟨e.2, ⟨hkey, hext, hname⟩, rfl⟩
  · rintro ⟨path', hpair, rfl⟩
    exact hpair.convert

/-- An argument behind an `--extern` is the second one of a pair or splits nowhere. -/
theorem isPair_or_none (hkey : tokens[i]? = some externKey) (hext : tokens[i + 1]? = some ext) :
    (∃ name path, IsPair tokens i name path ∧ ext = name ++ '=' :: path) ∨
      splitExtern ext = none := by
  cases hsplit : splitExtern ext with
  | none => exact .inr rfl
  | some e =>
    obtain ⟨rfl, hname⟩ := splitExtern_eq_some hsplit
    exact .inl ⟨e.1, e.2, ⟨hkey, hext, hname⟩, rfl⟩

theorem getElem?_of_not_pair (h : ∀ j name path, IsPair tokens j name path → i ≠ j + 1) :
    (convertProcMacroExterns files tokens)[i]? = tokens[i]? := by
  cases i with
  | zero => exact head_convertProcMacroExterns files tokens
  | succ i =>
    rw [getElem?_convertProcMacroExterns]
    split
    case isFalse => rfl
    case isTrue hkey =>
      cases hext : tokens[i + 1]? with
      | none => rfl
      | some ext =>
        rcases isPair_or_none hkey hext with ⟨name, path, hpair, -⟩ | hnone
        · exact absurd rfl (h i name path hpair)
        · rw [Option.map_some, convertExtern_of_none hnone]

/-- A further run changes nothing where it changes the file of no crate. -/
theorem convert_eq_self_iff : convertProcMacroExterns files tokens = tokens ↔
    ∀ i name path, IsPair tokens i name path → convertPath files name path = path := by
  constructor
  · intro h i name path hpair
    have hconvert : IsPair (convertProcMacroExterns files tokens) i name _ := hpair.convert
    have hvalue := hconvert.value
    rw [h, hpair.value, Option.some.injEq] at hvalue
    exact (List.cons_inj_right _).mp (List.append_cancel_left hvalue).symm
  · intro h
    refine List.ext_getElem? fun i => ?_
    by_cases hex : ∃ j name path, IsPair tokens j name path ∧ i = j + 1
    · obtain ⟨j, name, path, hpair, rfl⟩ := hex
      rw [hpair.convert.value, hpair.value, h j name path hpair]
    · exact getElem?_of_not_pair fun j name path hpair hi => hex ⟨j, name, path, hpair, hi⟩

/-- The arguments are converted where each pair is. -/
theorem converted_iff_pairs : Converted files tokens ↔
    ∀ i name path, IsPair tokens i name path →
      (endsRlib (convertPath files name path) = true →
        NamedFor name (basename (convertPath files name path))) ∧
      convertPath files name (convertPath files name path) = convertPath files name path := by
  constructor
  · intro h i name path hpair
    exact ⟨h.bases i name _ hpair.convert, convert_eq_self_iff.mp h.again i name _ hpair.convert⟩
  · intro h
    refine ⟨length_convertProcMacroExterns files tokens, fun i => getElem?_of_not_pair,
      fun i name path hpair => ⟨_, hpair.convert⟩, fun i name path hpair => ?_,
      convert_eq_self_iff.mpr fun i name path hpair => ?_⟩
    · obtain ⟨path', hpair', rfl⟩ := isPair_convert_iff.mp hpair
      exact (h i name path' hpair').1
    · obtain ⟨path', hpair', rfl⟩ := isPair_convert_iff.mp hpair
      exact (h i name path' hpair').2

end Loop

/-! ## A pair -/

section Pair

variable {files : Files} {name ending : Text} {path d : Path} {c : Char} {rest : Text}

/-- What is asked of a path that a crate is given. -/
def Settled (files : Files) (name : Text) (path : Path) : Prop :=
  (endsRlib path = true → NamedFor name (basename path)) ∧ convertPath files name path = path

theorem endsDylib_of_endsRlib (h : endsRlib path = true) : endsDylib path = false := by
  have hapart : ∀ a ∈ [rlib, ".rmeta".toList], ∀ b ∈ [".so".toList, dylib],
      a.isSuffixOf b = false ∧ b.isSuffixOf a = false := by decide
  have hnot : ∀ a ∈ [rlib, ".rmeta".toList], a <:+ path → endsDylib path = false := by
    intro a ha hsuffix
    have hb : ∀ b ∈ [".so".toList, dylib], b.isSuffixOf path = false := by
      intro b hb
      obtain ⟨hab, hba⟩ := hapart a ha b hb
      rw [Bool.eq_false_iff, ne_eq, List.isSuffixOf_iff_suffix] at hab hba ⊢
      intro hpath
      exact (List.suffix_or_suffix_of_suffix hsuffix hpath).elim hab hba
    rw [endsDylib, hb _ List.mem_cons_self, hb _ (List.mem_cons_of_mem _ List.mem_cons_self)]
    rfl
  rcases Bool.or_eq_true_iff.mp h with h | h
  · exact hnot _ List.mem_cons_self (List.isSuffixOf_iff_suffix.mp h)
  · exact hnot _ (List.mem_cons_of_mem _ List.mem_cons_self) (List.isSuffixOf_iff_suffix.mp h)

theorem endsRlib_of_suffix (h : rlib <:+ path) : endsRlib path = true :=
  Bool.or_eq_true_iff.mpr (.inl (List.isSuffixOf_iff_suffix.mpr h))

theorem suffix_libFile (name ending : Text) : ending <:+ libFile name ending :=
  (List.suffix_append _ _).trans (List.suffix_append _ _)

theorem rlib_suffix_staticRlib : rlib <:+ staticRlib := by decide

/-- The base name of a file that ends so stands for itself. -/
theorem proper_basename (h : endsRlib path = true) : Proper (basename path) := by
  have hlong : ∀ a ∈ [rlib, ".rmeta".toList], '/' ∉ a ∧ 2 < a.length := by decide
  have hproper : ∀ a ∈ [rlib, ".rmeta".toList], a <:+ path → Proper (basename path) := by
    intro a ha hsuffix
    obtain ⟨hslash, hlen⟩ := hlong a ha
    have hle := (suffix_basename hslash hsuffix).length_le
    refine ⟨?_, ?_, ?_, not_mem_basename path⟩
    all_goals
      intro heq
      have hlen' := congrArg List.length heq
      simp only [List.length_cons, List.length_nil] at hlen'
      omega
  rcases Bool.or_eq_true_iff.mp h with h | h
  · exact hproper _ List.mem_cons_self (List.isSuffixOf_iff_suffix.mp h)
  · exact hproper _ (List.mem_cons_of_mem _ List.mem_cons_self) (List.isSuffixOf_iff_suffix.mp h)

theorem basename_abspath_of_endsRlib (h : endsRlib path = true) :
    basename (abspath files.cwd path) = basename path :=
  basename_abspath files.absolute (proper_basename h)

theorem libFile_eq_cons (name ending : Text) :
    ∃ s, libFile name ending = 'l' :: 'i' :: 'b' :: s := ⟨_, rfl⟩

theorem head_libFile (name ending : Text) : (libFile name ending).head? ≠ some '/' := by
  obtain ⟨s, hs⟩ := libFile_eq_cons name ending
  simp [hs]

theorem not_mem_libFile (hname : '/' ∉ name) (hending : '/' ∉ ending) :
    '/' ∉ libFile name ending := by
  simp [libFile, hname, hending]

theorem proper_libFile (hname : '/' ∉ name) (hending : '/' ∉ ending) :
    Proper (libFile name ending) := by
  obtain ⟨s, hs⟩ := libFile_eq_cons name ending
  exact ⟨by simp [hs], by simp [hs], by simp [hs], not_mem_libFile hname hending⟩

/-- Behind the name comes a character that no name has. -/
theorem NamedFor.next {base : Text} (h : NamedFor name base) :
    ∃ c rest, base = libFile name (c :: rest) ∧ isIdent c = false := by
  rcases h with hbase | ⟨c, hash, hbase, hc, -, -⟩
  · exact ⟨'.', "rlib".toList, hbase, by decide⟩
  · exact ⟨c, hash ++ rlib, hbase, hc⟩

theorem NamedFor.not_mem (h : NamedFor name (basename path)) : '/' ∉ name := by
  obtain ⟨c, rest, hbase, -⟩ := h.next
  intro hmem
  refine not_mem_basename path (hbase ▸ ?_)
  simp [libFile, hmem]

theorem basename_join_libFile (hname : '/' ∉ name) (hending : '/' ∉ ending) (d : Path) :
    basename (join d (libFile name ending)) = libFile name ending := by
  rw [basename_join (head_libFile name _), basename_of_not_mem (not_mem_libFile hname hending)]

/-- A `.rlib` with the name of its crate stays. -/
theorem settled_of_namedFor (hends : endsRlib path = true) (h : NamedFor name (basename path)) :
    Settled files name path := by
  refine ⟨fun _ => h, ?_⟩
  obtain ⟨c, rest, hbase, -⟩ := h.next
  have hstart : (libFile name []).isPrefixOf (basename (abspath files.cwd path)) = true := by
    rw [basename_abspath_of_endsRlib hends, hbase, List.isPrefixOf_iff_prefix]
    exact ⟨c :: rest, by simp [libFile]⟩
  rw [convertPath, endsDylib_of_endsRlib hends, if_neg (by simp), if_pos hends, convertRlib,
    if_pos hstart]

/-- The file of a crate in a directory has its name where no slash is in the way. -/
theorem settled_rlib_iff (d : Path) :
    Settled files name (join d (libFile name rlib)) ↔ '/' ∉ name := by
  have hends : endsRlib (join d (libFile name rlib)) = true :=
    endsRlib_of_suffix ((suffix_libFile name _).trans (suffix_join d _))
  constructor
  · exact fun h => (h.1 hends).not_mem
  · intro hname
    refine settled_of_namedFor hends (Or.inl ?_)
    exact basename_join_libFile hname (by decide) d

/-- The `_` could be of the name. -/
theorem not_settled_staticRlib (d : Path) :
    ¬ Settled files name (join d (libFile name staticRlib)) := by
  intro h
  have hends : endsRlib (join d (libFile name staticRlib)) = true := endsRlib_of_suffix
    (rlib_suffix_staticRlib.trans ((suffix_libFile name _).trans (suffix_join d _)))
  have hnamed := h.1 hends
  obtain ⟨c, rest, hbase, hident⟩ := hnamed.next
  rw [basename_join_libFile hnamed.not_mem (by decide)] at hbase
  have hnext : staticRlib = c :: rest := List.append_cancel_left (List.append_cancel_left hbase)
  rw [show c = '_' from (List.cons.inj hnext).1.symm] at hident
  exact absurd hident (by decide)

theorem findRlib_eq (files : Files) (name : Text) (dirs : List Path) : findRlib files name dirs =
    (dirs.find? fun dd => files.has dd name rlib || files.has dd name staticRlib).map fun dd =>
      if files.has dd name rlib then join dd (libFile name rlib)
      else join dd (libFile name staticRlib) := by
  induction dirs with
  | nil => rfl
  | cons dd dirs ih =>
    rw [findRlib, List.find?_cons]
    cases hr : files.has dd name rlib with
    | true => simp [hr]
    | false =>
      cases hs : files.has dd name staticRlib with
      | true => simp [hr]
      | false => simpa using ih

theorem normal_dirOf (files : Files) (path : Path) :
    ∃ slashes comps, Normal (files.dirOf path) slashes comps := by
  obtain ⟨slashes, comps, h⟩ := normal_abspath files.absolute path
  exact ⟨slashes, _, h.dirname⟩

/-- A plain file of a directory of the wrapper lies in it. -/
theorem dirOf_join (hname : '/' ∉ name) (hending : '/' ∉ ending) (path : Path) :
    files.dirOf (join (files.dirOf path) (libFile name ending)) = files.dirOf path := by
  obtain ⟨slashes, comps, h⟩ := normal_dirOf files path
  have hproper := proper_libFile hname hending
  rw [Files.dirOf, abspath_of_normal (h.join hproper), h.dirname_join hproper]

/-- What is left of a `.dylib` that no `.rlib` was found for stays where its directory does. -/
theorem settled_dylib_iff (hdirs : findRlib files name (searchDirs (files.dirOf path)) = none)
    (hcwd : files.has files.cwd name rlib = false) :
    Settled files name (join (files.dirOf path) (libFile name dylib)) ↔
      files.dirOf (join (files.dirOf path) (libFile name dylib)) = files.dirOf path := by
  set new := join (files.dirOf path) (libFile name dylib) with hnew
  have hsuffix : dylib <:+ new := (suffix_libFile name _).trans (suffix_join _ _)
  have hends : endsDylib new = true :=
    Bool.or_eq_true_iff.mpr (.inr (List.isSuffixOf_iff_suffix.mpr hsuffix))
  have hnot : ¬ endsRlib new = true := fun h => by simp [endsDylib_of_endsRlib h] at hends
  have hconvert : convertPath files name new = convertDylib files name new := if_pos hends
  constructor
  · rintro ⟨-, hself⟩
    rw [hconvert, convertDylib, hcwd] at hself
    split at hself
    · next rlibPath hfound =>
      -- a `.rlib` is no `.dylib`
      rw [findRlib_eq] at hfound
      obtain ⟨dd, -, rfl⟩ := Option.map_eq_some_iff.mp hfound
      refine absurd (endsRlib_of_suffix ?_) hnot
      rw [← hself]
      split
      · exact (suffix_libFile name _).trans (suffix_join _ _)
      · exact rlib_suffix_staticRlib.trans ((suffix_libFile name _).trans (suffix_join _ _))
    · obtain ⟨_, _, h⟩ := normal_dirOf files path
      obtain ⟨_, _, h'⟩ := normal_dirOf files new
      rw [if_neg (by simp)] at hself
      exact h'.join_left_cancel h (head_libFile name _) hself
  · intro hdir
    refine ⟨fun h => absurd h hnot, ?_⟩
    rw [hconvert, convertDylib, hdir, hdirs, hcwd]
    rfl

theorem convertDylib_settled_iff :
    Settled files name (convertDylib files name path) ↔
      (∀ dd, (searchDirs (files.dirOf path)).find?
          (fun dd => files.has dd name rlib || files.has dd name staticRlib) = some dd →
        files.has dd name rlib = true) ∧
      ('/' ∈ name → (∀ dd ∈ searchDirs (files.dirOf path), files.has dd name rlib = false) ∧
        files.has files.cwd name rlib = false ∧
        files.dirOf (join (files.dirOf path) (libFile name dylib)) = files.dirOf path) := by
  have hfindRlib := findRlib_eq files name (searchDirs (files.dirOf path))
  cases hfind : (searchDirs (files.dirOf path)).find?
      (fun dd => files.has dd name rlib || files.has dd name staticRlib) with
  | some dd =>
    have hmem := List.mem_of_find?_eq_some hfind
    rw [hfind, Option.map_some] at hfindRlib
    rw [convertDylib, hfindRlib]
    cases hr : files.has dd name rlib with
    | true =>
      dsimp only
      rw [if_pos rfl, settled_rlib_iff]
      constructor
      · exact fun hname => ⟨by simp [hr], fun h => absurd h hname⟩
      · rintro ⟨-, hslash⟩ h
        simp [(hslash h).1 dd hmem] at hr
    | false =>
      dsimp only
      rw [if_neg (by simp)]
      exact iff_of_false (not_settled_staticRlib dd) fun h => by simp [h.1 dd rfl] at hr
  | none =>
    rw [hfind, Option.map_none] at hfindRlib
    have hnone : ∀ dd ∈ searchDirs (files.dirOf path), files.has dd name rlib = false := by
      intro dd hdd
      have hdd := List.find?_eq_none.mp hfind dd hdd
      simp only [Bool.or_eq_true, not_or, Bool.not_eq_true] at hdd
      exact hdd.1
    rw [convertDylib, hfindRlib]
    cases hcwd : files.has files.cwd name rlib with
    | true =>
      dsimp only
      rw [if_pos rfl, settled_rlib_iff]
      simp
    | false =>
      dsimp only
      rw [if_neg (by simp), settled_dylib_iff hfindRlib hcwd]
      constructor
      · exact fun hdir => ⟨by simp, fun _ => ⟨hnone, rfl, hdir⟩⟩
      · rintro ⟨-, hslash⟩
        by_cases hname : '/' ∈ name
        · exact (hslash hname).2.2
        · exact dirOf_join hname (by decide) path

theorem convertRlib_settled_iff (hends : endsRlib path = true) :
    Settled files name (convertRlib files name path) ↔
      if (libFile name []).isPrefixOf (basename (abspath files.cwd path)) then
        NamedFor name (basename (abspath files.cwd path))
      else '/' ∉ name := by
  rw [convertRlib]
  split
  · rw [basename_abspath_of_endsRlib hends]
    exact ⟨fun h => h.1 hends, settled_of_namedFor hends⟩
  · exact settled_rlib_iff _

/-- The file that a crate is given is as it should be. -/
theorem convertPath_settled_iff :
    Settled files name (convertPath files name path) ↔ Convertible files name path := by
  unfold Convertible
  by_cases hdylib : endsDylib path = true
  · rw [convertPath, if_pos hdylib, if_pos hdylib]
    exact convertDylib_settled_iff
  · rw [if_neg hdylib]
    by_cases hrlib : endsRlib path = true
    · rw [convertPath, if_neg hdylib, if_pos hrlib, if_pos hrlib]
      exact convertRlib_settled_iff hrlib
    · have hself : convertPath files name path = path := by
        rw [convertPath, if_neg hdylib, if_neg hrlib]
      rw [hself, if_neg hrlib]
      exact iff_of_true ⟨fun h => absurd h hrlib, hself⟩ trivial

end Pair

/-- The arguments come out as they should exactly when each crate can be given a file that has its
name. -/
theorem convertProcMacroExterns_converted_iff (files : Files) (tokens : List Text) :
    Converted files tokens ↔
      ∀ i name path, IsPair tokens i name path → Convertible files name path := by
  rw [converted_iff_pairs]
  exact forall_congr' fun i => forall_congr' fun name => forall_congr' fun path =>
    imp_congr_right fun _ => convertPath_settled_iff

def noFiles : Files := ⟨['/'], fun _ => false, rfl⟩

/-- The file of the crate `foobar` is given to the crate `foo`. -/
theorem longer_name_kept :
    ¬ Converted noFiles [externKey, "foo=/d/libfoobar.rlib".toList] := by
  intro h
  have hpair : IsPair (convertProcMacroExterns noFiles
      [externKey, "foo=/d/libfoobar.rlib".toList]) 0 "foo".toList "/d/libfoobar.rlib".toList :=
    ⟨by decide, by decide, by decide⟩
  obtain ⟨c, rest, hbase, hident⟩ := (h.bases 0 _ _ hpair (by decide)).next
  have hnext : basename "/d/libfoobar.rlib".toList =
      libFile "foo".toList ('b' :: "ar.rlib".toList) := by decide
  have hc := List.append_cancel_left (List.append_cancel_left (hnext.symm.trans hbase))
  rw [← (List.cons.inj hc).1] at hident
  exact absurd hident (by decide)

end RustcWrapper
