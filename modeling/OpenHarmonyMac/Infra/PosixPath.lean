import OpenHarmonyMac.Infra.Separator

/-!
# Paths of Python on POSIX

A path is absolute when it starts with a slash. Two slashes at the start are kept, and more are as
good as one.

* `join`, `normpath`, `abspath`, `dirname`, `basename` — the functions of `os.path`
* `Normal` — what `abspath` gives, and what it leaves as it is
-/

namespace Infra

namespace PosixPath

abbrev Path := List Char

/-- `os.path.join` of two paths -/
def join (a b : Path) : Path :=
  if b.head? = some '/' then b
  else if a = [] ∨ a.getLast? = some '/' then a ++ b
  else a ++ '/' :: b

/-- `initial_slashes` -/
def initialSlashes : Path → Nat
  | '/' :: '/' :: '/' :: _ => 1
  | '/' :: '/' :: _ => 2
  | '/' :: _ => 1
  | _ => 0

/-- The loop of `normpath` over the components. -/
def normComps (slashes : Nat) (newComps : List Path) : List Path → List Path
  | [] => newComps
  | comp :: comps =>
    if comp = [] ∨ comp = ['.'] then normComps slashes newComps comps
    else if comp ≠ ['.', '.'] ∨ (slashes = 0 ∧ newComps = []) ∨
        newComps.getLast? = some ['.', '.'] then
      normComps slashes (newComps ++ [comp]) comps
    else normComps slashes newComps.dropLast comps

/-- The path of these components. -/
def render (slashes : Nat) (comps : List Path) : Path :=
  List.replicate slashes '/' ++ ['/'].intercalate comps

/-- `os.path.normpath` -/
def normpath (p : Path) : Path :=
  match render (initialSlashes p) (normComps (initialSlashes p) [] (p.splitOn '/')) with
  | [] => ['.']
  | path => path

/-- `os.path.abspath` -/
def abspath (cwd p : Path) : Path :=
  normpath (if p.head? = some '/' then p else join cwd p)

/-- `os.path.dirname` -/
def dirname (p : Path) : Path :=
  if (p.rdropWhile (· != '/')).all (· == '/') then p.rdropWhile (· != '/')
  else (p.rdropWhile (· != '/')).rdropWhile (· == '/')

/-- `os.path.basename` -/
def basename (p : Path) : Path := p.rtakeWhile (· != '/')

/-! ## Components -/

/-- A component that stands for itself. -/
structure Proper (c : Path) : Prop where
  ne_nil : c ≠ []
  ne_dot : c ≠ ['.']
  ne_dots : c ≠ ['.', '.']
  not_mem : '/' ∉ c

/-- An absolute path that is its own normal form, with the components `comps`. -/
structure Normal (p : Path) (slashes : Nat) (comps : List Path) : Prop where
  slashes_mem : slashes = 1 ∨ slashes = 2
  proper : ∀ c ∈ comps, Proper c
  eq : p = render slashes comps

variable {p d x cwd : Path} {slashes : Nat} {comps newComps : List Path}

theorem basename_append_slash (hx : '/' ∉ x) (d : Path) : basename (d ++ '/' :: x) = x :=
  rtakeWhile_append_sep hx d

theorem basename_of_not_mem (hx : '/' ∉ x) : basename x = x := rtakeWhile_of_not_mem hx

theorem not_mem_basename (p : Path) : '/' ∉ basename p := by
  intro h
  rw [basename, List.rtakeWhile, List.mem_reverse] at h
  simpa using List.mem_takeWhile_imp h

/-- A path is its base name, with a slash in front of it or alone. -/
theorem eq_basename_or (p : Path) : p = basename p ∨ ∃ d, p = d ++ '/' :: basename p := by
  have hsplit := List.rdropWhile_append_rtakeWhile (p := (· != '/')) (l := p)
  rw [← basename] at hsplit
  rcases List.eq_nil_or_concat (p.rdropWhile (· != '/')) with hnil | ⟨d, c, hhead⟩
  · left
    rw [hnil] at hsplit
    exact hsplit.symm
  · right
    have hne : p.rdropWhile (· != '/') ≠ [] := by simp [hhead]
    have hc : c = '/' := by
      have hlast := List.rdropWhile_last_not (· != '/') p hne
      simpa [hhead] using hlast
    rw [hhead, hc, List.concat_eq_append, List.append_assoc] at hsplit
    exact ⟨d, hsplit.symm⟩

/-- What a path ends with, its base name ends with. -/
theorem suffix_basename (hx : '/' ∉ x) (h : x <:+ p) : x <:+ basename p := by
  rcases eq_basename_or p with hp | ⟨d, hp⟩
  · exact hp ▸ h
  rw [hp] at h
  rcases List.suffix_or_suffix_of_suffix h (List.suffix_append d ('/' :: basename p)) with h | h
  · rcases List.suffix_cons_iff.mp h with rfl | h
    · exact absurd List.mem_cons_self hx
    · exact h
  · exact absurd (h.subset List.mem_cons_self) hx

theorem normComps_append (as bs : List Path) :
    normComps slashes newComps (as ++ bs) =
      normComps slashes (normComps slashes newComps as) bs := by
  induction as generalizing newComps with
  | nil => rfl
  | cons comp as ih =>
    rw [List.cons_append, normComps, normComps]
    split
    · exact ih
    · split
      · exact ih
      · exact ih

theorem normComps_proper (hx : Proper x) (as : List Path) :
    normComps slashes newComps (x :: as) = normComps slashes (newComps ++ [x]) as := by
  rw [normComps, if_neg (not_or.mpr ⟨hx.ne_nil, hx.ne_dot⟩), if_pos (.inl hx.ne_dots)]

/-- Proper components stay. -/
theorem normComps_of_proper (h : ∀ c ∈ comps, Proper c) :
    normComps slashes newComps comps = newComps ++ comps := by
  induction comps generalizing newComps with
  | nil => simp [normComps]
  | cons c cs ih =>
    obtain ⟨hc, hcs⟩ := List.forall_mem_cons.mp h
    rw [normComps_proper hc, ih hcs, List.append_assoc, List.singleton_append]

theorem normComps_nils (n : Nat) (as : List Path) :
    normComps slashes newComps (List.replicate n [] ++ as) = normComps slashes newComps as := by
  induction n with
  | zero => rfl
  | succ n ih => rw [List.replicate_succ, List.cons_append, normComps, if_pos (.inl rfl), ih]

/-- The components of an absolute path are made proper. -/
theorem proper_normComps (hslashes : slashes ≠ 0) (hnew : ∀ c ∈ newComps, Proper c)
    (hcomps : ∀ c ∈ comps, '/' ∉ c) : ∀ c ∈ normComps slashes newComps comps, Proper c := by
  induction comps generalizing newComps with
  | nil => exact hnew
  | cons comp comps ih =>
    obtain ⟨hcomp, hcomps⟩ := List.forall_mem_cons.mp hcomps
    rw [normComps]
    split
    case isTrue => exact ih hnew hcomps
    case isFalse hempty =>
      obtain ⟨hnil, hdot⟩ := not_or.mp hempty
      split
      case isTrue hkeep =>
        have hdots : comp ≠ ['.', '.'] := by
          rcases hkeep with h | ⟨h, -⟩ | h
          · exact h
          · exact absurd h hslashes
          · exact absurd rfl (hnew _ (List.mem_of_getLast? h)).ne_dots
        refine ih (fun c hc => ?_) hcomps
        rcases List.mem_append.mp hc with hc | hc
        · exact hnew c hc
        · exact List.mem_singleton.mp hc ▸ ⟨hnil, hdot, hdots, hcomp⟩
      case isFalse => exact ih (fun c hc => hnew c (List.dropLast_subset _ hc)) hcomps

theorem not_mem_of_mem_splitOn {c : Path} (h : c ∈ p.splitOn '/') : '/' ∉ c := by
  induction p generalizing c with
  | nil => simp_all
  | cons a as ih =>
    rw [List.splitOn_cons_eq_if_modifyHead] at h
    split at h
    case isTrue =>
      rcases List.mem_cons.mp h with rfl | h
      · simp
      · exact ih h
    case isFalse ha =>
      obtain ⟨b, bs, hsplit⟩ := List.exists_cons_of_ne_nil (List.splitOn_ne_nil '/' as)
      rw [hsplit] at h ih
      rcases List.mem_cons.mp h with rfl | h
      · exact fun hmem => (List.mem_cons.mp hmem).elim (fun heq => ha (by simp [← heq]))
          (ih List.mem_cons_self)
      · exact ih (List.mem_cons_of_mem _ h)

theorem exists_splitOn_eq (p : Path) : ∃ front, p.splitOn '/' = front ++ [basename p] := by
  rcases eq_basename_or p with hp | ⟨d, hp⟩
  · have hmem : '/' ∉ p := hp ▸ not_mem_basename p
    exact ⟨[], by rw [List.splitOn_eq_singleton hmem, ← hp, List.nil_append]⟩
  · refine ⟨d.splitOn '/', ?_⟩
    conv_lhs => rw [hp]
    rw [List.splitOn_append_cons_self, List.splitOn_eq_singleton (not_mem_basename p)]

/-! ## Normal paths -/

theorem intercalate_concat (hne : comps ≠ []) (x : Path) :
    ['/'].intercalate (comps ++ [x]) = ['/'].intercalate comps ++ '/' :: x := by
  induction comps with
  | nil => exact absurd rfl hne
  | cons c cs ih =>
    cases cs with
    | nil => simp
    | cons c' cs =>
      rw [List.cons_append, List.cons_append, List.intercalate_cons_cons,
        List.intercalate_cons_cons, ← List.cons_append, ih (List.cons_ne_nil _ _)]
      simp

theorem render_concat (hne : comps ≠ []) (slashes : Nat) (x : Path) :
    render slashes (comps ++ [x]) = render slashes comps ++ '/' :: x := by
  rw [render, render, intercalate_concat hne, List.append_assoc]

/-- What a component is put behind. -/
theorem render_concat_nil (slashes : Nat) (comps : List Path) (x : Path) :
    render slashes (comps ++ [x]) = render slashes (comps ++ [[]]) ++ x := by
  by_cases hcomps : comps = []
  · simp [hcomps, render]
  · rw [render_concat hcomps, render_concat hcomps, List.append_assoc]
    rfl

theorem initialSlashes_mem (h : p.head? = some '/') :
    initialSlashes p = 1 ∨ initialSlashes p = 2 := by
  obtain ⟨cs, rfl⟩ := List.head?_eq_some_iff.mp h
  unfold initialSlashes
  split <;> simp_all

theorem Normal.head (h : Normal p slashes comps) : p.head? = some '/' := by
  rw [h.eq]
  rcases h.slashes_mem with rfl | rfl <;> rfl

/-- `abspath` gives a normal path. -/
theorem normal_normpath (habs : p.head? = some '/') : Normal (normpath p) (initialSlashes p)
    (normComps (initialSlashes p) [] (p.splitOn '/')) := by
  have hslashes := initialSlashes_mem habs
  refine ⟨hslashes, ?_, ?_⟩
  · refine proper_normComps (by omega) (by simp) fun c hc => not_mem_of_mem_splitOn hc
  · rw [normpath]
    split
    · next hnil =>
      rcases hslashes with h | h <;> simp [render, h, List.replicate_succ] at hnil
    · rfl

theorem Normal.initialSlashes_eq (h : Normal p slashes comps) : initialSlashes p = slashes := by
  obtain ⟨hslashes, hproper, rfl⟩ := h
  have hstart : ∀ cs, ['/'].intercalate comps ≠ '/' :: cs := by
    intro cs
    cases comps with
    | nil => simp
    | cons c cs' =>
      obtain ⟨hne, -, -, hmem⟩ := hproper c List.mem_cons_self
      obtain ⟨a, as, rfl⟩ := List.exists_cons_of_ne_nil hne
      have ha : a ≠ '/' := fun heq => hmem (heq ▸ List.mem_cons_self)
      cases cs' with
      | nil => simp [ha]
      | cons c' cs' => simp [List.intercalate_cons_cons, ha]
  rcases hslashes with rfl | rfl
  · cases hrest : ['/'].intercalate comps with
    | nil => simp [render, hrest, initialSlashes]
    | cons a as =>
      have ha : a ≠ '/' := fun heq => hstart as (heq ▸ hrest)
      simp [render, hrest, initialSlashes, ha]
  · cases hrest : ['/'].intercalate comps with
    | nil => simp [render, hrest, initialSlashes, List.replicate_succ]
    | cons a as =>
      have ha : a ≠ '/' := fun heq => hstart as (heq ▸ hrest)
      simp [render, hrest, initialSlashes, List.replicate_succ, ha]

/-- A normal path is its own normal form. -/
theorem Normal.normpath_eq (h : Normal p slashes comps) : normpath p = p := by
  have hslashes := h.initialSlashes_eq
  have hsplit (n : Nat) (rest : Path) :
      (List.replicate n '/' ++ rest).splitOn '/' = List.replicate n [] ++ rest.splitOn '/' := by
    induction n with
    | zero => rfl
    | succ n ih => simp [List.replicate_succ, List.splitOn_cons_eq_if_modifyHead, ih]
  have hcomps : normComps slashes [] (p.splitOn '/') = comps := by
    rw [h.eq, render, hsplit, normComps_nils]
    by_cases hnil : comps = []
    · simp [hnil, normComps]
    · rw [List.splitOn_intercalate _ (fun c hc => (h.proper c hc).not_mem) hnil,
        normComps_of_proper h.proper, List.nil_append]
  rw [normpath, hslashes, hcomps, ← h.eq]
  split
  · exact absurd h.head (by simp)
  · rfl

theorem Normal.render_concat_slash (h : Normal p slashes comps) (x : Path) :
    ∃ d, render slashes (comps ++ [x]) = d ++ '/' :: x := by
  by_cases hcomps : comps = []
  · rcases h.slashes_mem with rfl | rfl
    · exact ⟨[], by simp [hcomps, render]⟩
    · exact ⟨['/'], by simp [hcomps, render, List.replicate_succ]⟩
  · exact ⟨_, render_concat hcomps slashes x⟩

theorem Normal.basename_concat (h : Normal p slashes comps) (hx : '/' ∉ x) :
    basename (render slashes (comps ++ [x])) = x := by
  obtain ⟨d, hd⟩ := h.render_concat_slash x
  rw [hd, basename_append_slash hx]

/-- Only `/` and `//` end with a slash. -/
theorem Normal.getLast_eq_slash_iff (h : Normal p slashes comps) :
    p.getLast? = some '/' ↔ comps = [] := by
  constructor
  · intro hlast
    by_contra hne
    rcases List.eq_nil_or_concat comps with hnil | ⟨cs, x, hcs⟩
    · exact hne hnil
    rw [List.concat_eq_append] at hcs
    have hx := h.proper x (hcs ▸ List.mem_append_right _ List.mem_cons_self)
    obtain ⟨y, hy⟩ : ∃ y, x.getLast? = some y :=
      ⟨_, List.getLast?_eq_some_getLast hx.ne_nil⟩
    rw [h.eq, hcs, render_concat_nil, List.getLast?_append, hy] at hlast
    cases hlast
    exact hx.not_mem (List.mem_of_getLast? hy)
  · rintro rfl
    rw [h.eq]
    rcases h.slashes_mem with rfl | rfl <;> rfl

theorem Normal.dirname_concat (h : Normal p slashes comps) (hx : '/' ∉ x) :
    dirname (render slashes (comps ++ [x])) = p := by
  have hdrop (d : Path) : (d ++ '/' :: x).rdropWhile (· != '/') = d ++ ['/'] :=
    rdropWhile_append_sep hx d
  by_cases hcomps : comps = []
  · rw [h.eq, hcomps]
    rcases h.slashes_mem with rfl | rfl
    · have hhead := hdrop []
      rw [List.nil_append] at hhead
      simp [dirname, render, hhead]
    · have hhead := hdrop ['/']
      rw [List.singleton_append] at hhead
      simp [dirname, render, List.replicate_succ, hhead]
  · have hlast := mt h.getLast_eq_slash_iff.mp hcomps
    have hne : p ≠ [] := by
      rintro rfl
      exact absurd h.head (by simp)
    have hself : (p ++ ['/']).rdropWhile (· == '/') = p := by
      rw [List.rdropWhile_concat_pos _ _ _ (by simp), List.rdropWhile_eq_self_iff]
      intro hne hslash
      exact hlast (by rw [List.getLast?_eq_some_getLast hne, beq_iff_eq.mp hslash])
    have hnot : ¬ (p ++ ['/']).all (· == '/') = true := by
      intro hslashes
      refine hlast ?_
      rw [List.getLast?_eq_some_getLast hne]
      have hmem : p.getLast hne ∈ p ++ ['/'] := List.mem_append_left _ (List.getLast_mem hne)
      exact congrArg some (beq_iff_eq.mp (List.all_eq_true.mp hslashes _ hmem))
    rw [dirname, render_concat hcomps, ← h.eq, hdrop, if_neg hnot, hself]

theorem Normal.join_eq (h : Normal d slashes comps) (hx : x.head? ≠ some '/') :
    join d x = render slashes (comps ++ [[]]) ++ x := by
  have hne : d ≠ [] := by
    rintro rfl
    exact absurd h.head (by simp)
  rw [join, if_neg hx]
  by_cases hcomps : comps = []
  · rw [if_pos (.inr (h.getLast_eq_slash_iff.mpr hcomps)), h.eq, hcomps]
    rfl
  · rw [if_neg (not_or.mpr ⟨hne, mt h.getLast_eq_slash_iff.mp hcomps⟩), render_concat hcomps,
      ← h.eq, List.append_assoc]
    rfl

theorem Normal.concat (h : Normal d slashes comps) (hx : Proper x) :
    Normal (render slashes (comps ++ [x])) slashes (comps ++ [x]) :=
  ⟨h.slashes_mem, fun c hc => (List.mem_append.mp hc).elim (h.proper c)
    fun hc => List.mem_singleton.mp hc ▸ hx, rfl⟩

theorem Proper.head (h : Proper x) : x.head? ≠ some '/' :=
  fun hhead => h.not_mem (List.mem_of_head? hhead)

/-- A file of a normal directory -/
theorem Normal.join (h : Normal d slashes comps) (hx : Proper x) :
    Normal (join d x) slashes (comps ++ [x]) := by
  rw [h.join_eq hx.head, ← render_concat_nil]
  exact h.concat hx

theorem Normal.dirname_join (h : Normal d slashes comps) (hx : Proper x) :
    dirname (PosixPath.join d x) = d := by
  rw [h.join_eq hx.head, ← render_concat_nil, h.dirname_concat hx.not_mem]

/-- The directory of a normal path is normal. -/
theorem Normal.dirname (h : Normal p slashes comps) :
    Normal (dirname p) slashes comps.dropLast := by
  rcases List.eq_nil_or_concat comps with rfl | ⟨cs, x, rfl⟩
  · have hp : PosixPath.dirname p = p := by
      rw [h.eq]
      rcases h.slashes_mem with rfl | rfl <;> decide
    rw [hp]
    exact h
  · rw [List.concat_eq_append] at h ⊢
    have hcs : Normal (render slashes cs) slashes cs :=
      ⟨h.slashes_mem, fun c hc => h.proper c (List.mem_append_left _ hc), rfl⟩
    rw [List.dropLast_concat, h.eq, hcs.dirname_concat
      (h.proper x (List.mem_append_right _ List.mem_cons_self)).not_mem]
    exact hcs

/-- The directory in front of a file is known from the path. -/
theorem Normal.join_left_cancel {d' : Path} {slashes' : Nat} {comps' : List Path}
    (h : Normal d slashes comps) (h' : Normal d' slashes' comps') (hx : x.head? ≠ some '/')
    (heq : PosixPath.join d x = PosixPath.join d' x) : d = d' := by
  have ha : Proper ['a'] := ⟨by decide, by decide, by decide, by decide⟩
  rw [h.join_eq hx, h'.join_eq hx] at heq
  have hfile : PosixPath.join d ['a'] = PosixPath.join d' ['a'] := by
    rw [h.join_eq ha.head, h'.join_eq ha.head, List.append_cancel_right heq]
  rw [← h.dirname_join ha, hfile, h'.dirname_join ha]

/-! ## `abspath` -/

theorem suffix_join (d x : Path) : x <:+ join d x := by
  unfold join
  split
  · exact List.suffix_rfl
  · split
    · exact List.suffix_append _ _
    · exact (List.suffix_cons _ _).trans (List.suffix_append _ _)

theorem basename_join (hx : x.head? ≠ some '/') (d : Path) :
    basename (join d x) = basename x := by
  have hslash (d : Path) : basename (d ++ '/' :: x) = basename x := by
    rcases eq_basename_or x with hx | ⟨e, hx⟩
    · rw [basename_append_slash (hx ▸ not_mem_basename x), ← hx]
    · conv_lhs => rw [hx]
      rw [← List.cons_append, ← List.append_assoc, basename_append_slash (not_mem_basename x)]
  rw [join, if_neg hx]
  split
  case isTrue hend =>
    rcases hend with rfl | hlast
    · rfl
    · obtain ⟨e, rfl⟩ := List.getLast?_eq_some_iff.mp hlast
      rw [List.append_assoc, List.singleton_append, hslash]
  case isFalse => exact hslash d

theorem head_join (hd : d.head? = some '/') : (join d x).head? = some '/' := by
  obtain ⟨cs, rfl⟩ := List.head?_eq_some_iff.mp hd
  unfold join
  split
  · assumption
  · split <;> rfl

theorem normal_abspath (hcwd : cwd.head? = some '/') (p : Path) :
    ∃ slashes comps, Normal (abspath cwd p) slashes comps := by
  rw [abspath]
  split
  case isTrue habs => exact ⟨_, _, normal_normpath habs⟩
  case isFalse => exact ⟨_, _, normal_normpath (head_join hcwd)⟩

theorem abspath_of_normal (h : Normal p slashes comps) : abspath cwd p = p := by
  rw [abspath, if_pos h.head, h.normpath_eq]

/-- A base name that stands for itself is kept. -/
theorem basename_abspath (hcwd : cwd.head? = some '/') (hbase : Proper (basename p)) :
    basename (abspath cwd p) = basename p := by
  have hnorm : ∀ q : Path, q.head? = some '/' → basename q = basename p →
      basename (normpath q) = basename p := by
    intro q habs hq
    obtain ⟨front, hsplit⟩ := exists_splitOn_eq q
    have h := normal_normpath habs
    rw [hsplit, hq, normComps_append, normComps_proper hbase, normComps] at h
    have hfront : Normal (render (initialSlashes q) (normComps (initialSlashes q) [] front))
        (initialSlashes q) (normComps (initialSlashes q) [] front) :=
      ⟨h.slashes_mem, fun c hc => h.proper c (List.mem_append_left _ hc), rfl⟩
    rw [h.eq, hfront.basename_concat hbase.not_mem]
  rw [abspath]
  split
  case isTrue habs => exact hnorm p habs rfl
  case isFalse hrel => exact hnorm _ (head_join hcwd) (basename_join hrel cwd)

end PosixPath

end Infra
