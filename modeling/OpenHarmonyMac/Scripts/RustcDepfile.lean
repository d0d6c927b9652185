import OpenHarmonyMac.Infra.Lines
import OpenHarmonyMac.Infra.Separator
import Mathlib.Data.List.Flatten

/-!
# The depfile of the rustc wrapper

After the compiler has run, `exec_formatted_command` of `rustc_wrapper.py` takes the variables that
the command sets out of the depfile, so that ninja does not miss them.

* `execFormattedCommand` — the command from the list behind `RUSTENV` on
* `cleaned` — the depfile without the lines of these variables
* `execFormattedCommand_cleans_iff` — when the command leaves that
-/

namespace RustcWrapper

open Infra

abbrev Text := List Char

inductive Failure where
  | noEquals
  | exit (returncode : Int)
  deriving DecidableEq, Repr

/-- What stands in front of the last `sep`. -/
def beforeLast (sep : Char) (s : Text) : Text := (s.rdropWhile (· != sep)).dropLast

def envDep : Text := "# env-dep:".toList

/-- `group(1)` of the line: `.` matches no `\n`, and `.*` as much as it can. -/
def envDepKey (line : Text) : Option Text :=
  if envDep.isPrefixOf line ∧ '=' ∈ (line.drop envDep.length).takeWhile (· != '\n') then
    some (beforeLast '=' ((line.drop envDep.length).takeWhile (· != '\n')))
  else none

/-- The loop over the items of `RUSTENV`. -/
def fixedEnvVars (rustenv : List Text) : Except Failure (List Text) :=
  rustenv.mapM fun item =>
    if '=' ∈ item then .ok (item.takeWhile (· != '=')) else .error .noEquals

def matched (fixedEnvVars : List Text) (line : Text) : Bool :=
  match envDepKey line with
  | none => false
  | some key => fixedEnvVars.contains key

/-- What is in the depfile after the `if`. `atomic_output`, which is not here, replaces it. -/
def cleanDepfile (fixedEnvVars : List Text) (depfile : Text) : Text :=
  let read := lines (universalNewlines depfile)
  if read.any (matched fixedEnvVars) then
    ['\n'].intercalate (read.filter (! matched fixedEnvVars ·))
  else depfile

/-- `exec_formatted_command`, with what the compiler returns. The depfile, if there is one, is as
the compiler leaves it. -/
def execFormattedCommand (returncode : Int) (rustenv : List Text) (depfile : Option Text) :
    Except Failure (Option Text) := do
  let fixedEnvVars ← fixedEnvVars rustenv
  if returncode ≠ 0 then .error (.exit returncode)
  else return depfile.map (cleanDepfile fixedEnvVars)

/-! ## What the depfile should be -/

/-- An item of `RUSTENV` -/
structure Assignment where
  key : Text
  value : Text
  noEquals : '=' ∉ key

def Assignment.item (a : Assignment) : Text := a.key ++ '=' :: a.value

/-- The line is one of a variable of `keys`. -/
def ofKeys (keys : List Text) (line : Text) : Bool :=
  keys.any fun key => (envDep ++ (key ++ ['='])).isPrefixOf line

/-- The lines of the depfile that are of none of the variables. -/
def keptLines (keys : List Text) (depfile : Text) : List Text :=
  (rawLines depfile).filter (! ofKeys keys ·)

def cleaned (keys : List Text) (depfile : Text) : Text := (keptLines keys depfile).flatten

/-- The command leaves the depfile so, and again when it runs again. -/
def Cleans (assignments : List Assignment) (depfile : Text) : Prop :=
  ∃ depfile', execFormattedCommand 0 (assignments.map Assignment.item) (some depfile) =
      .ok (some depfile') ∧
    depfile' = cleaned (assignments.map Assignment.key) depfile ∧
    execFormattedCommand 0 (assignments.map Assignment.item) (some depfile') = .ok (some depfile')

/-- No line is one of the variables; or the values of those that are hold no `=`, and what is left
is one line at most, which ends with `\n` or not at all. -/
def Cleanable (keys : List Text) (depfile : Text) : Prop :=
  (∀ l ∈ rawLines depfile, ofKeys keys l = false) ∨
    (∀ l ∈ rawLines depfile, ofKeys keys l = true → l.count '=' = 1) ∧
      (keptLines keys depfile).length ≤ 1 ∧ ∀ l ∈ keptLines keys depfile, '\r' ∉ l

/-! ## A line -/

section Line

variable {keys : List Text} {key k v line body ending : Text} {sep : Char}

theorem beforeLast_append (hv : sep ∉ v) (k : Text) : beforeLast sep (k ++ sep :: v) = k := by
  rw [beforeLast, rdropWhile_append_sep hv, List.dropLast_concat]

/-- Text with a separator, cut at the last one. -/
theorem exists_last {s : Text} (h : sep ∈ s) : ∃ k v, s = k ++ sep :: v ∧ sep ∉ v := by
  obtain ⟨v, k, hrev, hv⟩ := List.eq_append_cons_of_mem (List.mem_reverse.mpr h)
  refine ⟨k.reverse, v.reverse, ?_, by simpa using hv⟩
  rw [← List.reverse_reverse s, hrev]
  simp

/-- What ends with a character that the ending does not have begins the line in its body. -/
theorem isPrefixOf_body_iff (hending : sep ∉ ending) (s : Text) :
    (s ++ [sep]).isPrefixOf (body ++ ending) = (s ++ [sep]).isPrefixOf body := by
  rw [Bool.eq_iff_iff, List.isPrefixOf_iff_prefix, List.isPrefixOf_iff_prefix]
  refine ⟨fun h => ?_, fun h => h.trans (List.prefix_append _ _)⟩
  rcases List.prefix_or_prefix_of_prefix h (List.prefix_append _ _) with hs | hbody
  · exact hs
  rcases List.prefix_concat_iff.mp hbody with rfl | ⟨t, rfl⟩
  · exact List.prefix_rfl
  · rw [List.append_assoc, List.prefix_append_right_inj] at h
    exact absurd (h.subset (List.mem_append_right _ List.mem_cons_self)) hending

theorem isPrefixOf_iff {s : Text} : s.isPrefixOf body = true ↔ ∃ rest, body = s ++ rest := by
  rw [List.isPrefixOf_iff_prefix]
  exact ⟨fun ⟨rest, h⟩ => ⟨rest, h.symm⟩, fun ⟨rest, h⟩ => ⟨rest, h.symm⟩⟩

/-- No character ends a line but these. -/
theorem not_mem_ending (h : IsLine line body ending) (hr : sep ≠ '\r') (hn : sep ≠ '\n') :
    sep ∉ ending := by
  have hending := h.ending_mem
  simp only [List.mem_cons, List.not_mem_nil, or_false] at hending
  rcases hending with rfl | rfl | rfl | rfl <;> simp [hr, hn]

theorem universalNewlines_line (h : IsLine line body ending) :
    universalNewlines line = body ++ universalNewlines ending :=
  h.eq ▸ universalNewlines_append (fun hr => (h.body_ne _ hr).1 rfl) ending

/-- What Python reads of a line is one with the same body. -/
theorem isLine_universalNewlines (h : IsLine line body ending) :
    IsLine (universalNewlines line) body (universalNewlines ending) := by
  refine ⟨universalNewlines_line h, h.body_ne, ?_⟩
  have hending := h.ending_mem
  simp only [List.mem_cons, List.not_mem_nil, or_false] at hending
  rcases hending with rfl | rfl | rfl | rfl <;> decide

theorem isPrefixOf_line (h : IsLine line body ending) (s : Text) (hr : sep ≠ '\r')
    (hn : sep ≠ '\n') : (s ++ [sep]).isPrefixOf line = (s ++ [sep]).isPrefixOf body :=
  h.eq ▸ isPrefixOf_body_iff (not_mem_ending h hr hn) s

theorem ofKeys_line (h : IsLine line body ending) : ofKeys keys line = ofKeys keys body := by
  refine congrArg (List.any keys) (funext fun key => ?_)
  rw [← List.append_assoc]
  exact isPrefixOf_line h (envDep ++ key) (by decide) (by decide)

theorem ofKeys_universalNewlines (h : IsLine line body ending) :
    ofKeys keys (universalNewlines line) = ofKeys keys line :=
  (ofKeys_line (isLine_universalNewlines h)).trans (ofKeys_line h).symm

theorem count_line (h : IsLine line body ending) : line.count '=' = body.count '=' := by
  rw [h.eq, List.count_append,
    List.count_eq_zero_of_not_mem (not_mem_ending h (by decide) (by decide)), Nat.add_zero]

/-- The line, as it is read, belongs to a variable. -/
theorem envDepKey_universalNewlines (h : IsLine line body ending) :
    envDepKey (universalNewlines line) =
      if envDep.isPrefixOf body ∧ '=' ∈ body.drop envDep.length then
        some (beforeLast '=' (body.drop envDep.length)) else none := by
  have hread := isLine_universalNewlines h
  have hstart : envDep.isPrefixOf (universalNewlines line) = envDep.isPrefixOf body :=
    isPrefixOf_line hread "# env-dep".toList (by decide) (by decide)
  unfold envDepKey
  rw [hstart]
  by_cases hbody : envDep.isPrefixOf body
  · obtain ⟨rest, rfl⟩ := isPrefixOf_iff.mp hbody
    have hall : ∀ c ∈ rest, (c != '\n') = true := fun c hc =>
      bne_iff_ne.mpr (h.body_ne c (List.mem_append_right _ hc)).2
    have hnone : (universalNewlines ending).takeWhile (· != '\n') = [] := by
      have hending := h.ending_mem
      simp only [List.mem_cons, List.not_mem_nil, or_false] at hending
      rcases hending with rfl | rfl | rfl | rfl <;> decide
    rw [universalNewlines_line h, List.append_assoc, List.drop_left, List.drop_left,
      List.takeWhile_append_of_pos hall, hnone, List.append_nil]
  · simp [hbody]

/-- The code finds a variable whose line has no other `=`. -/
theorem envDepKey_eq_some_iff (h : IsLine line body ending) (hkey : '=' ∉ key) :
    envDepKey (universalNewlines line) = some key ↔
      (envDep ++ (key ++ ['='])).isPrefixOf body = true ∧ body.count '=' = 1 := by
  have hcount (rest : Text) : (envDep ++ rest).count '=' = rest.count '=' := by
    rw [List.count_append, List.count_eq_zero_of_not_mem (by decide), Nat.zero_add]
  rw [envDepKey_universalNewlines h]
  constructor
  · intro hsome
    split at hsome
    case isFalse => cases hsome
    case isTrue hif =>
      obtain ⟨rest, rfl⟩ := isPrefixOf_iff.mp hif.1
      rw [List.drop_left] at hif hsome
      obtain ⟨k, v, rfl, hv⟩ := exists_last hif.2
      rw [beforeLast_append hv] at hsome
      cases hsome
      refine ⟨isPrefixOf_iff.mpr ⟨v, by simp⟩, ?_⟩
      rw [hcount, List.count_append, List.count_eq_zero_of_not_mem hkey, List.count_cons_self,
        List.count_eq_zero_of_not_mem hv]
  · rintro ⟨hstart, hone⟩
    obtain ⟨v, rfl⟩ := isPrefixOf_iff.mp hstart
    simp only [List.append_assoc, List.singleton_append] at hone ⊢
    rw [hcount, List.count_append, List.count_eq_zero_of_not_mem hkey,
      List.count_cons_self] at hone
    have hv : '=' ∉ v := List.count_eq_zero.mp (by omega)
    rw [List.drop_left, beforeLast_append hv, if_pos]
    exact ⟨isPrefixOf_iff.mpr ⟨_, rfl⟩, by simp⟩

/-- **The lines that the code finds** are those of a variable that have no other `=`. -/
theorem matched_universalNewlines (h : IsLine line body ending) (hkeys : ∀ key ∈ keys, '=' ∉ key) :
    matched keys (universalNewlines line) = true ↔
      ofKeys keys line = true ∧ line.count '=' = 1 := by
  have hmatched : matched keys (universalNewlines line) = true ↔
      ∃ key ∈ keys, envDepKey (universalNewlines line) = some key := by
    unfold matched
    cases envDepKey (universalNewlines line) with
    | none => simp
    | some key => simp [eq_comm]
  rw [hmatched, ofKeys_line h, count_line h, ofKeys, List.any_eq_true]
  constructor
  · rintro ⟨key, hmem, hkey⟩
    obtain ⟨hstart, hone⟩ := (envDepKey_eq_some_iff h (hkeys key hmem)).mp hkey
    exact ⟨⟨key, hmem, hstart⟩, hone⟩
  · rintro ⟨⟨key, hmem, hstart⟩, hone⟩
    exact ⟨key, hmem, (envDepKey_eq_some_iff h (hkeys key hmem)).mpr ⟨hstart, hone⟩⟩

end Line

/-! ## The file -/

section File

variable {keys : List Text} {depfile : Text} {assignments : List Assignment}

theorem fixedEnvVars_items (assignments : List Assignment) :
    fixedEnvVars (assignments.map Assignment.item) = .ok (assignments.map Assignment.key) := by
  induction assignments with
  | nil => rfl
  | cons a as ih =>
    have hkey : a.item.takeWhile (· != '=') = a.key := takeWhile_append_sep a.noEquals a.value
    have hmem : '=' ∈ a.item := List.mem_append_right _ List.mem_cons_self
    unfold fixedEnvVars at ih ⊢
    rw [List.map_cons, List.mapM_cons, ih, if_pos hmem, hkey]
    rfl

theorem execFormattedCommand_items (assignments : List Assignment) (depfile : Text) :
    execFormattedCommand 0 (assignments.map Assignment.item) (some depfile) =
      .ok (some (cleanDepfile (assignments.map Assignment.key) depfile)) := by
  rw [execFormattedCommand, fixedEnvVars_items]
  rfl

/-- The lines that the code drops -/
def dropped (keys : List Text) (line : Text) : Bool := ofKeys keys line && line.count '=' == 1

theorem cleanDepfile_eq (hkeys : ∀ key ∈ keys, '=' ∉ key) (depfile : Text) :
    cleanDepfile keys depfile = if (rawLines depfile).any (dropped keys) then
      ['\n'].intercalate (((rawLines depfile).filter (! dropped keys ·)).map universalNewlines)
    else depfile := by
  have hline : ∀ l ∈ rawLines depfile,
      (matched keys ∘ universalNewlines) l = dropped keys l := by
    intro l hl
    obtain ⟨-, body, ending, h⟩ := isLine_of_mem_rawLines hl
    rw [Bool.eq_iff_iff, Function.comp_apply, matched_universalNewlines h hkeys, dropped,
      Bool.and_eq_true, beq_iff_eq]
  have hfilter : (rawLines depfile).filter ((! matched keys ·) ∘ universalNewlines) =
      (rawLines depfile).filter (! dropped keys ·) :=
    List.filter_congr fun l hl => congrArg Bool.not (hline l hl)
  have hany : (rawLines depfile).any (matched keys ∘ universalNewlines) =
      (rawLines depfile).any (dropped keys) := by
    rw [Bool.eq_iff_iff, List.any_eq_true, List.any_eq_true]
    exact exists_congr fun l => and_congr_right fun hl => by rw [hline l hl]
  simp only [cleanDepfile, lines_universalNewlines, List.any_map, List.filter_map, hfilter, hany]

theorem length_intercalate_newline (ls : List Text) :
    (['\n'].intercalate ls).length = ls.flatten.length + (ls.length - 1) := by
  induction ls with
  | nil => rfl
  | cons l ls ih =>
    cases ls with
    | nil => simp
    | cons l' ls =>
      rw [List.intercalate_cons_cons, List.length_append, List.length_append, ih]
      simp only [List.flatten_cons, List.length_append, List.length_cons, List.length_nil]
      omega

theorem length_filter_flatten_lt {p : Text → Bool} {ls : List Text} (hne : ∀ l ∈ ls, l ≠ [])
    (hex : ∃ l ∈ ls, p l = false) : (ls.filter p).flatten.length < ls.flatten.length := by
  induction ls with
  | nil => simp at hex
  | cons l ls ih =>
    have hle : (ls.filter p).flatten.length ≤ ls.flatten.length :=
      List.filter_sublist.flatten.length_le
    have hpos : 0 < l.length := List.length_pos_iff.mpr (hne l List.mem_cons_self)
    by_cases hl : p l = true
    · rw [List.filter_cons_of_pos hl]
      obtain ⟨l', hmem, hl'⟩ := hex
      have hlt := ih (fun l hl => hne l (List.mem_cons_of_mem _ hl))
        ⟨l', (List.mem_cons.mp hmem).resolve_left (by rintro rfl; simp [hl] at hl'), hl'⟩
      simp only [List.flatten_cons, List.length_append]
      omega
    · rw [List.filter_cons_of_neg hl]
      simp only [List.flatten_cons, List.length_append]
      omega

/-- A depfile without a line of the variables stays as it is. -/
theorem cleanDepfile_of_none (hkeys : ∀ key ∈ keys, '=' ∉ key)
    (h : ∀ l ∈ rawLines depfile, ofKeys keys l = false) : cleanDepfile keys depfile = depfile := by
  rw [cleanDepfile_eq hkeys, if_neg]
  rw [List.any_eq_true]
  rintro ⟨l, hl, hdropped⟩
  simp [dropped, h l hl] at hdropped

theorem cleaned_of_none (h : ∀ l ∈ rawLines depfile, ofKeys keys l = false) :
    cleaned keys depfile = depfile := by
  have hall : keptLines keys depfile = rawLines depfile :=
    List.filter_eq_self.mpr fun l hl => by simp [h l hl]
  rw [cleaned, hall, flatten_rawLines]

/-- The lines of a variable are dropped and no other, and at most one is left as it is. -/
theorem cleanDepfile_of_cleanable (hkeys : ∀ key ∈ keys, '=' ∉ key) (h : Cleanable keys depfile) :
    cleanDepfile keys depfile = cleaned keys depfile := by
  rcases h with hnone | ⟨hvalue, hone, hr⟩
  · rw [cleanDepfile_of_none hkeys hnone, cleaned_of_none hnone]
  have hdropped : ∀ l ∈ rawLines depfile, dropped keys l = ofKeys keys l := by
    intro l hl
    cases hof : ofKeys keys l with
    | false => simp [dropped, hof]
    | true => simp [dropped, hof, hvalue l hl hof]
  rw [cleanDepfile_eq hkeys]
  split
  case isTrue =>
    have hkept : (rawLines depfile).filter (! dropped keys ·) = keptLines keys depfile :=
      List.filter_congr fun l hl => by rw [hdropped l hl]
    rw [hkept, cleaned]
    match hls : keptLines keys depfile with
    | [] => rfl
    | [l] =>
      have hl : '\r' ∉ l := hr l (by simp [hls])
      simp [universalNewlines_of_not_mem hl]
    | _ :: _ :: _ =>
      rw [hls] at hone
      simp at hone
  case isFalse hany =>
    refine (cleaned_of_none fun l hl => ?_).symm
    rw [← hdropped l hl]
    simpa using fun hd => hany (List.any_eq_true.mpr ⟨l, hl, hd⟩)

/-- What is left has no line of the variables. -/
theorem rawLines_cleaned_of_cleanable (h : Cleanable keys depfile) :
    ∀ l ∈ rawLines (cleaned keys depfile), ofKeys keys l = false := by
  rcases h with hnone | ⟨-, hone, -⟩
  · rwa [cleaned_of_none hnone]
  rw [cleaned]
  match hls : keptLines keys depfile with
  | [] => simp [rawLines]
  | [l] =>
    have hmem : l ∈ keptLines keys depfile := by simp [hls]
    obtain ⟨hraw, hof⟩ := List.mem_filter.mp hmem
    obtain ⟨hne, body, ending, hl⟩ := isLine_of_mem_rawLines hraw
    simpa [rawLines_of_isLine hl hne] using hof
  | _ :: _ :: _ =>
    rw [hls] at hone
    simp at hone

theorem not_mem_intercalate_newline {ls : List Text} (h : ∀ l ∈ ls, '\r' ∉ l) :
    '\r' ∉ ['\n'].intercalate ls := by
  induction ls with
  | nil => simp
  | cons l ls ih =>
    obtain ⟨hl, hls⟩ := List.forall_mem_cons.mp h
    cases ls with
    | nil => simpa using hl
    | cons l' ls =>
      rw [List.intercalate_cons_cons]
      simp only [List.mem_append, not_or]
      exact ⟨⟨hl, by decide⟩, ih hls⟩

theorem universalNewlines_ne_nil {l : Text} (h : l ≠ []) : universalNewlines l ≠ [] := by
  fun_cases universalNewlines l <;> simp_all

/-- The lines that the code leaves, as it reads them, are what should be left and some others. -/
theorem keptLines_eq_filter_map (h : ∀ l ∈ keptLines keys depfile, '\r' ∉ l) :
    keptLines keys depfile = (((rawLines depfile).filter (! dropped keys ·)).map
      universalNewlines).filter (! ofKeys keys ·) := by
  have hread : ∀ l ∈ (rawLines depfile).filter (! dropped keys ·),
      ((! ofKeys keys ·) ∘ universalNewlines) l = ! ofKeys keys l := by
    intro l hl
    obtain ⟨-, body, ending, hline⟩ := isLine_of_mem_rawLines (List.mem_of_mem_filter hl)
    exact congrArg Bool.not (ofKeys_universalNewlines hline)
  have hboth : ((rawLines depfile).filter (! dropped keys ·)).filter (! ofKeys keys ·) =
      keptLines keys depfile := by
    rw [List.filter_filter]
    refine List.filter_congr fun l _ => ?_
    cases hof : ofKeys keys l <;> simp [dropped, hof]
  rw [List.filter_map, List.filter_congr hread, hboth]
  rw [List.map_congr_left fun l hl => universalNewlines_of_not_mem (h l hl), List.map_id']

/-- Where the code leaves what it should, there is nothing that it gets wrong. -/
theorem cleanable_of_cleanDepfile (hkeys : ∀ key ∈ keys, '=' ∉ key)
    (h : cleanDepfile keys depfile = cleaned keys depfile) : Cleanable keys depfile := by
  rw [Cleanable, or_iff_not_imp_left]
  intro hsome
  push Not at hsome
  obtain ⟨l, hl, hof⟩ := hsome
  have hne : ∀ l ∈ rawLines depfile, l ≠ [] := fun l hl => (isLine_of_mem_rawLines hl).1
  rw [cleanDepfile_eq hkeys] at h
  split at h
  case isFalse =>
    have hlt : (keptLines keys depfile).flatten.length < (rawLines depfile).flatten.length :=
      length_filter_flatten_lt hne ⟨l, hl, by simpa using hof⟩
    rw [flatten_rawLines, ← cleaned, ← h] at hlt
    omega
  case isTrue =>
    have hr : ∀ l ∈ keptLines keys depfile, '\r' ∉ l := by
      intro l hl hmem
      have hcleaned : '\r' ∈ cleaned keys depfile := List.mem_flatten_of_mem hl hmem
      rw [← h] at hcleaned
      refine not_mem_intercalate_newline ?_ hcleaned
      rintro _ hread
      obtain ⟨l, -, rfl⟩ := List.mem_map.mp hread
      exact not_mem_universalNewlines l
    have hkept := keptLines_eq_filter_map hr
    have hlen := congrArg List.length h
    rw [length_intercalate_newline, cleaned] at hlen
    set read := ((rawLines depfile).filter (! dropped keys ·)).map universalNewlines with hread
    have hle : (keptLines keys depfile).flatten.length ≤ read.flatten.length :=
      hkept ▸ List.filter_sublist.flatten.length_le
    have hone : (keptLines keys depfile).length ≤ read.length :=
      hkept ▸ List.length_filter_le _ _
    refine ⟨fun l hl hof => ?_, by omega, hr⟩
    -- a line that should have gone makes the file longer
    by_contra hcount
    have hdropped : dropped keys l = false := by simp [dropped, hcount]
    obtain ⟨-, body, ending, hline⟩ := isLine_of_mem_rawLines hl
    have hmem : universalNewlines l ∈ read :=
      List.mem_map_of_mem (List.mem_filter.mpr ⟨hl, by simp [hdropped]⟩)
    have hreadne : ∀ l ∈ read, l ≠ [] := by
      intro l' hl'
      obtain ⟨l, hl, rfl⟩ := List.mem_map.mp hl'
      exact universalNewlines_ne_nil (hne l (List.mem_of_mem_filter hl))
    have hlt : (read.filter (! ofKeys keys ·)).flatten.length < read.flatten.length :=
      length_filter_flatten_lt hreadne
        ⟨_, hmem, by simp [ofKeys_universalNewlines hline, hof]⟩
    rw [← hkept] at hlt
    omega

/-- The command leaves the lines of all other variables, and nothing else, exactly when no line
is to go, or those that are hold no second `=` and leave one line at most that has no `\r`. -/
theorem execFormattedCommand_cleans_iff (assignments : List Assignment) (depfile : Text) :
    Cleans assignments depfile ↔ Cleanable (assignments.map Assignment.key) depfile := by
  have hkeys : ∀ key ∈ assignments.map Assignment.key, '=' ∉ key := by
    intro key hkey
    obtain ⟨a, -, rfl⟩ := List.mem_map.mp hkey
    exact a.noEquals
  constructor
  · rintro ⟨depfile', hexec, hcleaned, -⟩
    rw [execFormattedCommand_items] at hexec
    cases hexec
    exact cleanable_of_cleanDepfile hkeys hcleaned
  · intro h
    refine ⟨_, execFormattedCommand_items assignments depfile, cleanDepfile_of_cleanable hkeys h,
      ?_⟩
    rw [execFormattedCommand_items, cleanDepfile_of_cleanable hkeys h,
      cleanDepfile_of_none hkeys (rawLines_cleaned_of_cleanable h)]

def sampleAssignment : Assignment := ⟨['K'], ['v'], by decide⟩

/-- Two lines are left, and an empty one between them. -/
theorem blank_line_added : ¬ Cleans [sampleAssignment] "a\nb\n# env-dep:K=v\n".toList := by
  rintro ⟨depfile', hexec, hcleaned, -⟩
  rw [show execFormattedCommand 0 ([sampleAssignment].map Assignment.item)
      (some "a\nb\n# env-dep:K=v\n".toList) = .ok (some "a\n\nb\n".toList) from by decide] at hexec
  cases hexec
  exact absurd hcleaned (by decide)

end File

end RustcWrapper
