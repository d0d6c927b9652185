import Mathlib.Data.List.Infix

/-!
# Trees of files, directories and links

A tree says of each path what is there. The directory of everything that is there is there, too.
A link has the path that it leads to, from the root and without dots. A second name of the same
file counts as a link to the first one.

* `FileTree` — the trees
* `canon` — where a path leads when its links are followed
* `mkdirP`, `create`, `copyTo`, `cp` — `mkdir -p`, the writing of a file, and `cp -f`
* `SameLinks`, `mkdirP_content`, `create_content` — what they change and what they leave
-/

namespace Infra

/-- What is at a path. -/
inductive FileNode (ν γ : Type*)
  | file (content : γ)
  | dir
  | link (target : List ν)
  deriving DecidableEq, Repr

/-- A tree of files, with names in `ν` and contents in `γ`. -/
structure FileTree (ν γ : Type*) where
  node : List ν → Option (FileNode ν γ)
  root : node [] = some .dir
  parent : ∀ p x, node (p ++ [x]) ≠ none → node p = some .dir

namespace FileTree

variable {ν γ : Type*} {t t' : FileTree ν γ} {p q r d e : List ν} {x : ν} {c : γ} {n : Nat}

/-! ## What is at a path itself -/

/-- Where the link at the path leads to. -/
def link? (t : FileTree ν γ) (p : List ν) : Option (List ν) :=
  match t.node p with
  | some (.link target) => some target
  | _ => none

/-- The content of the file at the path. -/
def fileAt (t : FileTree ν γ) (p : List ν) : Option γ :=
  match t.node p with
  | some (.file c) => some c
  | _ => none

/-- There is a directory at the path. -/
def DirAt (t : FileTree ν γ) (p : List ν) : Prop := t.node p = some .dir

instance (t : FileTree ν γ) (p : List ν) : Decidable (t.DirAt p) :=
  match h : t.node p with
  | some .dir => isTrue h
  | some (.file _) => isFalse fun hd => nomatch h.symm.trans hd
  | some (.link _) => isFalse fun hd => nomatch h.symm.trans hd
  | none => isFalse fun hd => nomatch h.symm.trans hd

theorem DirAt.fileAt (h : t.DirAt p) : t.fileAt p = none := by
  unfold FileTree.fileAt
  rw [show t.node p = some .dir from h]

theorem DirAt.link? (h : t.DirAt p) : t.link? p = none := by
  unfold FileTree.link?
  rw [show t.node p = some .dir from h]

/-- The directories above a directory. -/
theorem DirAt.of_prefix (h : t.DirAt p) (hq : q <+: p) : t.DirAt q := by
  obtain ⟨r, rfl⟩ := hq
  induction r using List.reverseRecOn with
  | nil => rwa [List.append_nil] at h
  | append_singleton r x ih =>
    refine ih (t.parent (q ++ r) x ?_)
    rw [List.append_assoc, show t.node (q ++ (r ++ [x])) = some .dir from h]
    exact Option.some_ne_none _

/-! ## Following links -/

/-- The first link on the way from `q` along `rest`, with the part of the way behind it. -/
def firstLink (t : FileTree ν γ) : List ν → List ν → Option (List ν × List ν)
  | q, [] => (t.link? q).map (·, [])
  | q, x :: rest =>
    match t.link? q with
    | some target => some (target, x :: rest)
    | none => t.firstLink (q ++ [x]) rest

/-- Follows at most `n` links. -/
def follow (t : FileTree ν γ) : Nat → List ν → Option (List ν)
  | 0, p => if (t.firstLink [] p).isNone then some p else none
  | n + 1, p =>
    match t.firstLink [] p with
    | none => some p
    | some (target, rest) => t.follow n (target ++ rest)

/-- How many links the system follows (`MAXSYMLINKS`). -/
def maxLinks : Nat := 32

/-- Where a path leads to: a path without links on its way. -/
def canon (t : FileTree ν γ) (p : List ν) : Option (List ν) := t.follow maxLinks p

/-- The content of the regular file that the path leads to. -/
def content (t : FileTree ν γ) (p : List ν) : Option γ := (t.canon p).bind t.fileAt

/-- The path leads to a directory. -/
def IsDir (t : FileTree ν γ) (p : List ν) : Prop := ∃ e ∈ t.canon p, t.DirAt e

instance (t : FileTree ν γ) (p : List ν) : Decidable (t.IsDir p) :=
  match h : t.canon p with
  | none => isFalse fun ⟨e, he, _⟩ => by simp [h] at he
  | some e => decidable_of_iff (t.DirAt e) (by simp [IsDir, h])

/-- Both paths lead to the same place. -/
def SamePlace (t : FileTree ν γ) (p q : List ν) : Prop := ∃ e ∈ t.canon p, e ∈ t.canon q

instance [DecidableEq ν] (t : FileTree ν γ) (p q : List ν) : Decidable (t.SamePlace p q) :=
  match h : t.canon p with
  | none => isFalse fun ⟨e, he, _⟩ => by simp [h] at he
  | some e => decidable_of_iff (t.canon q = some e) (by simp [SamePlace, h])

/-- The first path leads to a place above that of the second one. -/
def Above (t : FileTree ν γ) (p q : List ν) : Prop :=
  ∃ d ∈ t.canon p, ∃ e ∈ t.canon q, d <+: e ∧ d ≠ e

/-- Neither place is the other one or above it. -/
structure Apart (t : FileTree ν γ) (p q : List ν) : Prop where
  not_same : ¬ t.SamePlace p q
  not_above : ¬ t.Above p q
  not_below : ¬ t.Above q p

theorem SamePlace.symm (h : t.SamePlace p q) : t.SamePlace q p := by
  obtain ⟨e, hp, hq⟩ := h
  exact ⟨e, hq, hp⟩

theorem SamePlace.canon_eq (h : t.SamePlace p q) : t.canon p = t.canon q := by
  obtain ⟨e, hp, hq⟩ := h
  rw [Option.mem_def.mp hp, Option.mem_def.mp hq]

theorem SamePlace.trans (hpq : t.SamePlace p q) (hqr : t.SamePlace q r) : t.SamePlace p r := by
  obtain ⟨e, hq, hr⟩ := hqr
  exact ⟨e, hpq.canon_eq ▸ hq, hr⟩

theorem SamePlace.content_eq (h : t.SamePlace p q) : t.content p = t.content q := by
  unfold content
  rw [h.canon_eq]

theorem Apart.symm (h : t.Apart p q) : t.Apart q p :=
  ⟨fun hs => h.not_same hs.symm, h.not_below, h.not_above⟩

theorem samePlace_self (h : (t.canon p).isSome) : t.SamePlace p p := by
  obtain ⟨e, he⟩ := Option.isSome_iff_exists.mp h
  exact ⟨e, he, he⟩

/-- Places that are known, with neither path a prefix of the other one. -/
theorem Apart.of_canon (hp : t.canon p = some d) (hq : t.canon q = some e) (hd : ¬ d <+: e)
    (he : ¬ e <+: d) : t.Apart p q := by
  refine ⟨?_, ?_, ?_⟩
  · rintro ⟨r, hr, hr'⟩
    rw [← Option.mem_unique hr hp, ← Option.mem_unique hr' hq] at hd
    exact hd (List.prefix_refl r)
  · rintro ⟨r, hr, r', hr', hpre, -⟩
    rw [Option.mem_unique hr hp, Option.mem_unique hr' hq] at hpre
    exact hd hpre
  · rintro ⟨r, hr, r', hr', hpre, -⟩
    rw [Option.mem_unique hr hq, Option.mem_unique hr' hp] at hpre
    exact he hpre

theorem not_above_self : ¬ t.Above p p := by
  rintro ⟨d, hd, e, he, -, hne⟩
  exact hne (Option.mem_unique hd he)

theorem firstLink_append (q r s : List ν) : t.firstLink q (r ++ s) =
    ((t.firstLink q r).map fun l => (l.1, l.2 ++ s)).or (t.firstLink (q ++ r) s) := by
  induction r generalizing q with
  | nil =>
    cases s with
    | nil => cases h : t.link? q <;> simp [firstLink, h]
    | cons x s => cases h : t.link? q <;> simp [firstLink, h]
  | cons x r ih =>
    cases h : t.link? q with
    | some target => simp [firstLink, h]
    | none => simp only [List.cons_append, firstLink, h, ih, List.append_assoc, List.nil_append]

theorem firstLink_eq_none : t.firstLink q r = none ↔ ∀ s, s <+: r → t.link? (q ++ s) = none := by
  induction r generalizing q with
  | nil => simp [firstLink]
  | cons x r ih =>
    constructor
    · intro h s hs
      cases hq : t.link? q with
      | some target => simp [firstLink, hq] at h
      | none =>
        cases s with
        | nil => rwa [List.append_nil]
        | cons y s =>
          simp only [firstLink, hq] at h
          have hlink : t.link? (q ++ [x] ++ s) = none :=
            ih.mp h s (List.cons_prefix_cons.mp hs).2
          rw [(List.cons_prefix_cons.mp hs).1]
          rwa [List.append_assoc] at hlink
    · intro h
      have hq : t.link? q = none := by simpa using h [] List.nil_prefix
      simp only [firstLink, hq]
      refine ih.mpr fun s hs => ?_
      rw [List.append_assoc]
      exact h (x :: s) (List.cons_prefix_cons.mpr ⟨rfl, hs⟩)

/-- A path without a link on its way leads to itself. -/
theorem canon_eq_self (h : ∀ q, q <+: p → t.link? q = none) : t.canon p = some p := by
  have hnone : t.firstLink [] p = none := firstLink_eq_none.mpr h
  unfold canon maxLinks follow
  rw [hnone]

theorem follow_link? (h : t.follow n p = some e) (hq : q <+: e) : t.link? q = none := by
  induction n generalizing p with
  | zero =>
    unfold follow at h
    split at h
    case isTrue hnone =>
      cases h
      exact firstLink_eq_none.mp (Option.isNone_iff_eq_none.mp hnone) q hq
    case isFalse => cases h
  | succ n ih =>
    unfold follow at h
    split at h
    case h_1 hnone =>
      cases h
      exact firstLink_eq_none.mp hnone q hq
    case h_2 target rest hlink => exact ih h

theorem canon_link? (h : t.canon p = some e) (hq : q <+: e) : t.link? q = none := follow_link? h hq

/-- Where a name in a directory leads to: to this name in the place of the directory, when there is
no link of this name. -/
theorem follow_snoc (hd : t.follow n p = some d) (he : t.follow n (p ++ [x]) = some e) :
    e = d ++ [x] ∨ (t.link? (d ++ [x])).isSome := by
  induction n generalizing p with
  | zero =>
    unfold follow at hd he
    split at hd
    case isTrue =>
      split at he
      case isTrue =>
        cases hd
        cases he
        exact Or.inl rfl
      case isFalse => cases he
    case isFalse => cases hd
  | succ n ih =>
    cases hp : t.firstLink [] p with
    | some l =>
      have hpx : t.firstLink [] (p ++ [x]) = some (l.1, l.2 ++ [x]) := by
        rw [firstLink_append, hp]
        rfl
      simp only [follow, hp] at hd
      simp only [follow, hpx] at he
      rw [← List.append_assoc] at he
      exact ih hd he
    | none =>
      simp only [follow, hp, Option.some.injEq] at hd
      subst hd
      have hpx : t.firstLink [] (p ++ [x]) = t.firstLink p [x] := by
        rw [firstLink_append, hp]
        rfl
      cases hx : t.link? (p ++ [x]) with
      | some target => exact Or.inr rfl
      | none =>
        have hnone : t.firstLink [] (p ++ [x]) = none := by
          rw [hpx]
          have hpnone : t.link? p = none := firstLink_eq_none.mp hp p (List.prefix_refl p)
          simp [firstLink, hpnone, hx]
        simp only [follow, hnone, Option.some.injEq] at he
        exact Or.inl he.symm

/-! ## The same links -/

/-- The second tree has the links of the first one. -/
def SameLinks (t t' : FileTree ν γ) : Prop := ∀ p, t'.link? p = t.link? p

namespace SameLinks

variable (h : SameLinks t t')
include h

theorem trans {t'' : FileTree ν γ} (h' : SameLinks t' t'') : SameLinks t t'' :=
  fun p => (h' p).trans (h p)

theorem firstLink_eq (q r : List ν) : t'.firstLink q r = t.firstLink q r := by
  induction r generalizing q with
  | nil => rw [firstLink, firstLink, h q]
  | cons x r ih => rw [firstLink, firstLink, h q, ih]

theorem canon_eq (p : List ν) : t'.canon p = t.canon p := by
  have hfollow : ∀ n p, t'.follow n p = t.follow n p := by
    intro n
    induction n with
    | zero =>
      intro p
      rw [follow, follow, h.firstLink_eq]
    | succ n ih =>
      intro p
      simp only [follow, h.firstLink_eq, ih]
  exact hfollow maxLinks p

theorem samePlace_iff : t'.SamePlace p q ↔ t.SamePlace p q := by
  unfold SamePlace
  rw [h.canon_eq, h.canon_eq]

theorem above_iff : t'.Above p q ↔ t.Above p q := by
  unfold Above
  rw [h.canon_eq, h.canon_eq]

theorem apart_iff : t'.Apart p q ↔ t.Apart p q := by
  constructor
  · rintro ⟨hs, ha, hb⟩
    exact ⟨mt h.samePlace_iff.mpr hs, mt h.above_iff.mpr ha, mt h.above_iff.mpr hb⟩
  · rintro ⟨hs, ha, hb⟩
    exact ⟨mt h.samePlace_iff.mp hs, mt h.above_iff.mp ha, mt h.above_iff.mp hb⟩

end SameLinks

/-! ## The operations -/

/-- Only the root is there. -/
def empty : FileTree ν γ where
  node p := if p.isEmpty then some .dir else none
  root := rfl
  parent p x h := absurd (by simp) h

/-- The link of the name `x` in the directory `d`. -/
def readlink (t : FileTree ν γ) (d : List ν) (x : ν) : Option (List ν) :=
  (t.canon d).bind fun e => t.link? (e ++ [x])

/-- Every link on the way from `q` along `rest` leads to a directory. -/
def leads (t : FileTree ν γ) : List ν → List ν → Bool
  | _, [] => true
  | q, x :: rest =>
    ((t.readlink q x).isNone || decide (t.IsDir (q ++ [x]))) && t.leads (q ++ [x]) rest

/-- Where `cp` copies a file of the name `x` to that is to get this name in `d`: when there is a
directory of the name, the file goes into it. -/
def target (t : FileTree ν γ) (d : List ν) (x : ν) : List ν :=
  if t.IsDir (d ++ [x]) then d ++ [x] ++ [x] else d ++ [x]

/-- Without a directory of the name, the file gets the name itself. -/
theorem target_eq (h : ¬ t.IsDir (d ++ [x])) : t.target d x = d ++ [x] := if_neg h

variable [DecidableEq ν]

/-- The tree with the directories on the way to `p`. -/
def addDirs (t : FileTree ν γ) (p : List ν) : FileTree ν γ where
  node q := if q <+: p then some .dir else t.node q
  root := if_pos List.nil_prefix
  parent q x h := by
    by_cases hq : q <+: p
    · exact if_pos hq
    · have hqx : ¬ q ++ [x] <+: p := fun hp => hq ((List.prefix_append q [x]).trans hp)
      rw [if_neg hqx] at h
      rw [if_neg hq]
      exact t.parent q x h

/-- `mkdir -p`. It fails when there is a file on the way, or a link that leads to no directory. -/
def mkdirP (t : FileTree ν γ) (p : List ν) : Option (FileTree ν γ) :=
  (t.canon p).bind fun e =>
    if ¬ t.leads [] p ∨ e.inits.any fun q => (t.fileAt q).isSome then none else some (t.addDirs e)

/-- The tree with something at the path `e` that is no directory. -/
def put (t : FileTree ν γ) (e : List ν) (new : FileNode ν γ) (hd : t.DirAt e.dropLast)
    (he : ¬ t.DirAt e) : FileTree ν γ where
  node q := if q = e then some new else t.node q
  root := by
    have hne : [] ≠ e := by
      rintro rfl
      exact he t.root
    rw [if_neg hne]
    exact t.root
  parent q y h := by
    by_cases hq : q = e
    · -- below a path without a directory there is nothing
      have hy : q ++ [y] ≠ e := by
        intro heq
        rw [hq] at heq
        simp at heq
      rw [if_neg hy] at h
      exact absurd (t.parent q y h) (hq ▸ he)
    · rw [if_neg hq]
      by_cases hy : q ++ [y] = e
      · rw [← hy, List.dropLast_concat] at hd
        exact hd
      · rw [if_neg hy] at h
        exact t.parent q y h

/-- Creates or overwrites the file that the path leads to. A link that leads to nothing gets its
file. -/
def create (t : FileTree ν γ) (p : List ν) (c : γ) : Option (FileTree ν γ) :=
  (t.canon p).bind fun e =>
    if hd : t.DirAt e.dropLast then
      if he : t.DirAt e then none else some (t.put e (.file c) hd he)
    else none

/-- `cp -f` of a file of another tree, with the name `x`, to this name in `d`. -/
def copyTo (t : FileTree ν γ) (d : List ν) (x : ν) (c : γ) : Option (FileTree ν γ) :=
  t.create (t.target d x) c

/-- `cp -f` of the file `p`, with the name `x`, to this name in `d`. A file is not copied to
itself. -/
def cp (t : FileTree ν γ) (p d : List ν) (x : ν) : Option (FileTree ν γ) :=
  if t.SamePlace p (t.target d x) then none else (t.content p).bind (t.copyTo d x)

/-! ## What they change -/

theorem addDirs_link? (h : ∀ q, q <+: e → t.link? q = none) : SameLinks t (t.addDirs e) := by
  intro q
  by_cases hq : q <+: e
  · rw [h q hq]
    exact DirAt.link? (if_pos hq)
  · unfold link? addDirs
    simp only [if_neg hq]

theorem mkdirP_cases (h : t.mkdirP p = some t') : ∃ e, t.canon p = some e ∧
    (∀ q, q <+: e → t.fileAt q = none) ∧ t' = t.addDirs e := by
  obtain ⟨e, he, h⟩ := Option.bind_eq_some_iff.mp h
  refine ⟨e, he, ?_⟩
  split at h
  case isTrue => cases h
  case isFalse hclear =>
    simp only [not_or, List.any_eq_true, List.mem_inits, not_exists, not_and,
      Option.not_isSome_iff_eq_none] at hclear
    exact ⟨hclear.2, (Option.some.inj h).symm⟩

theorem mkdirP_links (h : t.mkdirP p = some t') : SameLinks t t' := by
  obtain ⟨e, he, -, rfl⟩ := mkdirP_cases h
  exact addDirs_link? fun q => canon_link? he

/-- The contents of all files stay. -/
theorem mkdirP_content (h : t.mkdirP p = some t') (q : List ν) : t'.content q = t.content q := by
  unfold content
  rw [(mkdirP_links h).canon_eq]
  obtain ⟨e, -, hclear, rfl⟩ := mkdirP_cases h
  congr 1
  funext r
  by_cases hr : r <+: e
  · rw [hclear r hr]
    exact DirAt.fileAt (if_pos hr)
  · unfold fileAt addDirs
    simp only [if_neg hr]

/-- The new directories are above the place of each name in the directory. When this name is a
link, the directory was there before. -/
theorem mkdirP_isDir (h : t.mkdirP d = some t') (he : (t.canon (d ++ [x])).isSome)
    (hq : t'.IsDir q) : t.IsDir q ∨ t.Above q (d ++ [x]) := by
  obtain ⟨e', he'⟩ := Option.isSome_iff_exists.mp he
  obtain ⟨r, hr, hdir⟩ := hq
  rw [(mkdirP_links h).canon_eq] at hr
  obtain ⟨e, hcanon, -, rfl⟩ := mkdirP_cases h
  by_cases hre : r <+: e
  · rcases follow_snoc hcanon he' with rfl | hlink
    · refine Or.inr ⟨r, hr, e ++ [x], he', hre.trans (List.prefix_append _ _), ?_⟩
      intro heq
      have hlen := hre.length_le
      rw [heq, List.length_append, List.length_singleton] at hlen
      omega
    · refine Or.inl ⟨r, hr, DirAt.of_prefix (t.parent e x fun hnone => ?_) hre⟩
      simp [link?, hnone] at hlink
  · unfold DirAt addDirs at hdir
    simp only [if_neg hre] at hdir
    exact Or.inl ⟨r, hr, hdir⟩

theorem create_cases (h : t.create p c = some t') : ∃ e, t.canon p = some e ∧
    ¬ t.DirAt e ∧ ∀ q, t'.node q = if q = e then some (.file c) else t.node q := by
  obtain ⟨e, hcanon, h⟩ := Option.bind_eq_some_iff.mp h
  refine ⟨e, hcanon, ?_⟩
  split at h
  · split at h
    case isTrue => cases h
    case isFalse hd he =>
      cases h
      exact ⟨he, fun q => rfl⟩
  · cases h

theorem create_links (h : t.create p c = some t') : SameLinks t t' := by
  obtain ⟨e, hcanon, -, hnode⟩ := create_cases h
  intro q
  by_cases hq : q = e
  · rw [canon_link? hcanon (hq ▸ List.prefix_refl q)]
    unfold link?
    rw [hnode, if_pos hq]
  · unfold link?
    rw [hnode, if_neg hq]

theorem cp_links (h : t.cp p d x = some t') : SameLinks t t' := by
  unfold cp at h
  split at h
  case isTrue => cases h
  case isFalse =>
    obtain ⟨c, -, hcopy⟩ := Option.bind_eq_some_iff.mp h
    exact create_links hcopy

/-- A copy is made to a name that leads to some place. -/
theorem copyTo_canon (h : t.copyTo d x c = some t') : (t.canon (d ++ [x])).isSome := by
  unfold copyTo target at h
  split at h
  case isTrue hdir =>
    obtain ⟨e, he, -⟩ := hdir
    exact Option.isSome_of_mem he
  case isFalse =>
    obtain ⟨e, he, -⟩ := create_cases h
    exact Option.isSome_of_mem he

/-- All paths that lead to the file have the new content. -/
theorem create_content (h : t.create p c = some t') (q : List ν) :
    t'.content q = if t.SamePlace q p then some c else t.content q := by
  unfold content
  rw [(create_links h).canon_eq]
  obtain ⟨e, hcanon, -, hnode⟩ := create_cases h
  cases hq : t.canon q with
  | none => rw [if_neg (by simp [SamePlace, hq])]; rfl
  | some r =>
    simp only [Option.bind_some, SamePlace, hq, hcanon, Option.mem_some_iff, exists_eq_left',
      fileAt, hnode]
    by_cases hre : r = e
    · rw [if_pos hre, if_pos hre.symm]
    · rw [if_neg hre, if_neg (Ne.symm hre)]

/-- A new file is no directory. -/
theorem IsDir.of_create (h : t.create p c = some t') (hq : t'.IsDir q) : t.IsDir q := by
  obtain ⟨r, hr, hdir⟩ := hq
  rw [(create_links h).canon_eq] at hr
  obtain ⟨e, -, -, hnode⟩ := create_cases h
  unfold DirAt at hdir
  rw [hnode] at hdir
  split at hdir
  · cases hdir
  · exact ⟨r, hr, hdir⟩

end FileTree

end Infra
