import OpenHarmonyMac.Infra.FileTree
import OpenHarmonyMac.Infra.Transition

/-!
# The script that applies the patches

`apply_patches.sh` copies the files of the mirror over those of the source tree and keeps what it
overwrites in a backup directory, which lies in the source tree. Paths are lists of names. No name
ends with a newline, which the substitution around `dirname` would drop.

The tree is the whole file system without the mirror, and no link in it leads into the mirror. The
source tree is at the path `root` in it. Permissions are left out.

* `applyPatches` — one run of the script, `none` where a command fails
* `patching` — one run after the other
* `backup_keeps_originals` — when the backup has what was there before the first patch
-/

namespace ApplyPatches

open Infra

abbrev Name := List Char

abbrev Path := List Name

/-- A file that `find` prints, with its content. -/
structure MirrorFile (γ : Type*) where
  dirname : Path
  basename : Name
  content : γ

/-- `${rel}` -/
def MirrorFile.rel {γ : Type*} (src : MirrorFile γ) : Path := src.dirname ++ [src.basename]

/-- The files of the mirror in the order of `find`. None has the path of another one or lies below
it. -/
structure Mirror (γ : Type*) where
  files : List (MirrorFile γ)
  apart : files.Pairwise fun f g => ¬ f.rel <+: g.rel ∧ ¬ g.rel <+: f.rel

variable {γ : Type*}

/-- `${OHOS_ROOT}/${rel}` -/
def dst (root rel : Path) : Path := root ++ rel

/-- `${OHOS_ROOT}/.opencode/mac-backup` -/
def backupDir (root : Path) : Path := root ++ [".opencode".toList, "mac-backup".toList]

/-- `${BACKUP_DIR}/${rel}`, where the script keeps the original of a file. -/
def backup (root rel : Path) : Path := backupDir root ++ rel

/-- The files that `find` or the `case` leaves out: those in the directories `scripts` and `compat`
of the mirror, its `README.md` and the marks `*.applied`. -/
def skipped (rel : Path) : Bool :=
  match rel with
  | [] => false
  | [name] => name == "README.md".toList || ".applied".toList.isSuffixOf name
  | dir :: rest => dir == "scripts".toList || dir == "compat".toList ||
      (rest.getLast?.map (".applied".toList.isSuffixOf ·)).getD false

/-- The `if` in the body of the loop: a file that is there is copied to the backup directory. -/
def keepOriginal (root : Path) (tree : FileTree Name γ) (src : MirrorFile γ) :
    Option (FileTree Name γ) :=
  if (tree.content (dst root src.rel)).isNone then some tree
  else do
    let tree ← tree.mkdirP (backup root src.dirname)
    tree.cp (dst root src.rel) (backup root src.dirname) src.basename

/-- The body of the loop. Each command ends the script when it fails. -/
def applyFile (root : Path) (tree : FileTree Name γ) (src : MirrorFile γ) :
    Option (FileTree Name γ) :=
  if skipped src.rel then some tree
  else do
    let tree ← tree.mkdirP (dst root src.dirname)
    let tree ← keepOriginal root tree src
    tree.copyTo (dst root src.dirname) src.basename src.content

/-- The script. It stops when there is no directory `build`. -/
def applyPatches (root : Path) (tree : FileTree Name γ) (mirror : Mirror γ) :
    Option (FileTree Name γ) :=
  if ¬ tree.IsDir (root ++ ["build".toList]) then none
  else mirror.files.foldlM (applyFile root) tree

/-- The files that a run copies. -/
def Mirror.patches (mirror : Mirror γ) : List (MirrorFile γ) :=
  mirror.files.filter fun src => ¬ skipped src.rel

/-- The tree, and of each path that a run has patched what was there before the first such run: the
content of a file or none. -/
structure State (γ : Type*) where
  tree : FileTree Name γ
  original : Path → Option (Option γ) := fun _ => none

/-- A completed run after the other, each with the mirror as it is then. -/
def patching (root : Path) (γ : Type*) : System (State γ) (Mirror γ) where
  init s := ∀ p, s.original p = none
  enabled s mirror := (applyPatches root s.tree mirror).isSome
  step s mirror :=
    { tree := (applyPatches root s.tree mirror).getD s.tree
      original := fun p => (s.original p).or
        (if p ∈ mirror.patches.map MirrorFile.rel then some (s.tree.content (dst root p))
          else none) }

/-! ## One file -/

/-- What the file needs that the script does not check: it is no directory of the tree or of the
backup, its place in the tree has nothing to do with the backup, and no other path has its place in
the backup. -/
structure Fits (root : Path) (tree : FileTree Name γ) (src : MirrorFile γ) : Prop where
  not_dir : ¬ tree.IsDir (dst root src.rel)
  backup_not_dir : ¬ tree.IsDir (backup root src.rel)
  outside : ∀ p, tree.Apart (dst root src.rel) (backup root p)
  single : ∀ p, p ≠ src.rel → ¬ tree.SamePlace (backup root src.rel) (backup root p)

/-- The places of two paths have nothing to do with each other, in the tree or in the backup. -/
structure Separate (root : Path) (tree : FileTree Name γ) (p q : Path) : Prop where
  dst : tree.Apart (dst root p) (dst root q)
  backup : tree.Apart (backup root p) (backup root q)

/-- What becomes of the tree when a list of files is applied. -/
structure Applied (root : Path) (tree tree' : FileTree Name γ) (files : List (MirrorFile γ)) :
    Prop where
  links : tree.SameLinks tree'
  patched : ∀ src ∈ files, tree'.content (dst root src.rel) = some src.content
  kept : ∀ src ∈ files, ∀ c, tree.content (dst root src.rel) = some c →
    tree'.content (backup root src.rel) = some c
  unchanged : ∀ p, (∀ src ∈ files, ¬ tree.SamePlace p (dst root src.rel) ∧
    ¬ tree.SamePlace p (backup root src.rel)) → tree'.content p = tree.content p

section Files

variable {root : Path} {tree tree' : FileTree Name γ} {src : MirrorFile γ}
  {files : List (MirrorFile γ)} {p q : Path}

theorem dst_rel (root : Path) (src : MirrorFile γ) :
    dst root src.rel = dst root src.dirname ++ [src.basename] := (List.append_assoc ..).symm

theorem backup_rel (root : Path) (src : MirrorFile γ) :
    backup root src.rel = backup root src.dirname ++ [src.basename] := (List.append_assoc ..).symm

theorem Separate.symm (h : Separate root tree p q) : Separate root tree q p :=
  ⟨h.dst.symm, h.backup.symm⟩

theorem Separate.congr (h : Separate root tree p q) (hlinks : tree.SameLinks tree') :
    Separate root tree' p q :=
  ⟨hlinks.apart_iff.mpr h.dst, hlinks.apart_iff.mpr h.backup⟩

/-- A file still fits when the links are the same and it has not become a directory. -/
theorem Fits.congr (h : Fits root tree src) (hlinks : tree.SameLinks tree')
    (hdst : tree'.IsDir (dst root src.rel) → tree.IsDir (dst root src.rel))
    (hbackup : tree'.IsDir (backup root src.rel) → tree.IsDir (backup root src.rel)) :
    Fits root tree' src := by
  refine ⟨fun hd => h.not_dir (hdst hd), fun hd => h.backup_not_dir (hbackup hd), ?_, ?_⟩
  · exact fun p => hlinks.apart_iff.mpr (h.outside p)
  · exact fun p hp hs => h.single p hp (hlinks.samePlace_iff.mp hs)

/-- A copy to a name that no directory has. -/
theorem copyTo_spec {d : Path} {x : Name} {c : γ} (hfree : ¬ tree.IsDir (d ++ [x]))
    (h : tree.copyTo d x c = some tree') :
    (∀ p, tree'.content p = if tree.SamePlace p (d ++ [x]) then some c else tree.content p) ∧
      ∀ p, tree'.IsDir p → tree.IsDir p := by
  unfold FileTree.copyTo at h
  rw [FileTree.target_eq hfree] at h
  exact ⟨FileTree.create_content h, fun p => FileTree.IsDir.of_create h⟩

theorem keepOriginal_links (h : keepOriginal root tree src = some tree') :
    tree.SameLinks tree' := by
  unfold keepOriginal at h
  split at h
  case isTrue =>
    cases h
    exact fun p => rfl
  case isFalse =>
    obtain ⟨tree₁, hmkdir, hcp⟩ := Option.bind_eq_some_iff.mp h
    exact (FileTree.mkdirP_links hmkdir).trans (FileTree.cp_links hcp)

/-- After the `if`, the backup has the original, and every other file is as it was. New directories
are above the place in the backup. -/
theorem keepOriginal_spec (hfits : Fits root tree src)
    (h : keepOriginal root tree src = some tree') :
    (∀ c, tree.content (dst root src.rel) = some c →
        tree'.content (backup root src.rel) = some c) ∧
      (∀ p, ¬ tree.SamePlace p (backup root src.rel) → tree'.content p = tree.content p) ∧
      ∀ p, tree'.IsDir p → tree.IsDir p ∨ tree.Above p (backup root src.rel) := by
  unfold keepOriginal at h
  split at h
  case isTrue hnone =>
    cases h
    refine ⟨fun c hc => ?_, fun p _ => rfl, fun p hp => Or.inl hp⟩
    rw [hc] at hnone
    cases hnone
  case isFalse =>
    obtain ⟨tree₁, hmkdir, hcp⟩ := Option.bind_eq_some_iff.mp h
    have hlinks := FileTree.mkdirP_links hmkdir
    unfold FileTree.cp at hcp
    split at hcp
    case isTrue => cases hcp
    case isFalse =>
      obtain ⟨original, horig, hcopy⟩ := Option.bind_eq_some_iff.mp hcp
      have hplace := FileTree.copyTo_canon hcopy
      rw [hlinks.canon_eq] at hplace
      have hdirs : ∀ p, tree₁.IsDir p → tree.IsDir p ∨ tree.Above p (backup root src.rel) := by
        intro p hp
        rw [backup_rel]
        exact FileTree.mkdirP_isDir hmkdir hplace hp
      -- `cp` would copy into a directory, so there must be none of this name
      have hfree : ¬ tree₁.IsDir (backup root src.dirname ++ [src.basename]) := by
        rw [← backup_rel]
        intro hp
        rcases hdirs _ hp with hp | hp
        · exact hfits.backup_not_dir hp
        · exact FileTree.not_above_self hp
      obtain ⟨hcontent, hdirs'⟩ := copyTo_spec hfree hcopy
      simp only [← backup_rel, hlinks.samePlace_iff] at hcontent
      refine ⟨fun c hc => ?_, fun p hp => ?_, fun p hp => hdirs p (hdirs' p hp)⟩
      · rw [hcontent, if_pos (FileTree.samePlace_self (backup_rel root src ▸ hplace)), ← horig,
          FileTree.mkdirP_content hmkdir, hc]
      · rw [hcontent, if_neg hp, FileTree.mkdirP_content hmkdir]

/-- What the script does with one file, and where it makes directories. -/
theorem applied_file (hfits : Fits root tree src) (hskip : skipped src.rel = false)
    (h : applyFile root tree src = some tree') :
    Applied root tree tree' [src] ∧ ∀ p, tree'.IsDir p → tree.IsDir p ∨
      tree.Above p (dst root src.rel) ∨ tree.Above p (backup root src.rel) := by
  unfold applyFile at h
  rw [if_neg (by simp [hskip])] at h
  obtain ⟨tree₁, hmkdir, h⟩ := Option.bind_eq_some_iff.mp h
  obtain ⟨tree₂, hbackup, hcopy⟩ := Option.bind_eq_some_iff.mp h
  have hlinks₁ := FileTree.mkdirP_links hmkdir
  have hcontent₁ := FileTree.mkdirP_content hmkdir
  have hlinks₂ := hlinks₁.trans (keepOriginal_links hbackup)
  have hlinks : tree.SameLinks tree' := hlinks₂.trans (FileTree.create_links hcopy)
  have hplace := FileTree.copyTo_canon hcopy
  rw [hlinks₂.canon_eq] at hplace
  have hdirs₁ : ∀ p, tree₁.IsDir p → tree.IsDir p ∨ tree.Above p (dst root src.rel) := by
    intro p hp
    rw [dst_rel]
    exact FileTree.mkdirP_isDir hmkdir hplace hp
  have hfits₁ : Fits root tree₁ src := by
    refine hfits.congr hlinks₁ (fun hp => ?_) (fun hp => ?_)
    · exact (hdirs₁ _ hp).resolve_right FileTree.not_above_self
    · exact (hdirs₁ _ hp).resolve_right (hfits.outside _).not_below
  obtain ⟨hkept, hothers, hdirs₂⟩ := keepOriginal_spec hfits₁ hbackup
  have hfree : ¬ tree₂.IsDir (dst root src.dirname ++ [src.basename]) := by
    rw [← dst_rel]
    intro hp
    rcases hdirs₂ _ hp with hp | hp
    · exact hfits₁.not_dir hp
    · exact (hfits₁.outside _).not_above hp
  obtain ⟨hcontent, hdirs₃⟩ := copyTo_spec hfree hcopy
  simp only [← dst_rel, hlinks₂.samePlace_iff] at hcontent
  simp only [hlinks₁.samePlace_iff] at hothers
  refine ⟨⟨hlinks, ?_, ?_, ?_⟩, fun p hp => ?_⟩
  · refine List.forall_mem_singleton.mpr ?_
    rw [hcontent, if_pos (FileTree.samePlace_self (dst_rel root src ▸ hplace))]
  · refine List.forall_mem_singleton.mpr fun c hc => ?_
    rw [hcontent, if_neg fun hs => (hfits.outside _).not_same hs.symm]
    exact hkept c ((hcontent₁ _).trans hc)
  · intro p hp
    obtain ⟨hdst, hback⟩ := hp src List.mem_cons_self
    rw [hcontent, if_neg hdst, hothers p hback, hcontent₁]
  · rcases hdirs₂ p (hdirs₃ p hp) with hp | hp
    · exact (hdirs₁ p hp).imp_right Or.inl
    · exact Or.inr (Or.inr (hlinks₁.above_iff.mp hp))

/-! ## All files of a run -/

/-- A file still fits after another one has been copied. -/
theorem Fits.applied {g : MirrorFile γ} (hg : Fits root tree g) (hsrc : Fits root tree src)
    (hsep : Separate root tree g.rel src.rel) (hlinks : tree.SameLinks tree')
    (hdirs : ∀ p, tree'.IsDir p → tree.IsDir p ∨
      tree.Above p (dst root src.rel) ∨ tree.Above p (backup root src.rel)) :
    Fits root tree' g := by
  refine hg.congr hlinks (fun hp => ?_) (fun hp => ?_)
  · rcases hdirs _ hp with hp | hp | hp
    · exact hp
    · exact absurd hp hsep.dst.not_above
    · exact absurd hp (hg.outside _).not_above
  · rcases hdirs _ hp with hp | hp | hp
    · exact hp
    · exact absurd hp (hsrc.outside _).not_below
    · exact absurd hp hsep.backup.not_above

/-- Files with places of their own, one after the others. -/
theorem Applied.cons {tree₁ : FileTree Name γ} (hsrc : Fits root tree src)
    (hfits : ∀ g ∈ files, Fits root tree g)
    (hsep : ∀ g ∈ files, Separate root tree src.rel g.rel)
    (hfirst : Applied root tree tree₁ [src]) (hrest : Applied root tree₁ tree' files) :
    Applied root tree tree' (src :: files) := by
  have hrest_unchanged : ∀ p, (∀ g ∈ files, ¬ tree.SamePlace p (dst root g.rel) ∧
      ¬ tree.SamePlace p (backup root g.rel)) → tree'.content p = tree₁.content p := by
    intro p hp
    refine hrest.unchanged p fun g hg => ?_
    rw [hfirst.links.samePlace_iff, hfirst.links.samePlace_iff]
    exact hp g hg
  have hkeep : ∀ g ∈ files, tree₁.content (dst root g.rel) = tree.content (dst root g.rel) := by
    intro g hg
    refine hfirst.unchanged _ (List.forall_mem_singleton.mpr ?_)
    exact ⟨(hsep g hg).symm.dst.not_same, ((hfits g hg).outside _).not_same⟩
  refine ⟨hfirst.links.trans hrest.links, ?_, ?_, ?_⟩
  · intro f hf
    rcases List.mem_cons.mp hf with rfl | hf
    · rw [hrest_unchanged _ fun g hg => ⟨(hsep g hg).dst.not_same, (hsrc.outside _).not_same⟩]
      exact hfirst.patched f List.mem_cons_self
    · exact hrest.patched f hf
  · intro f hf c hc
    rcases List.mem_cons.mp hf with rfl | hf
    · rw [hrest_unchanged _ fun g hg => ⟨((hfits g hg).outside _).symm.not_same,
        (hsep g hg).backup.not_same⟩]
      exact hfirst.kept f List.mem_cons_self c hc
    · exact hrest.kept f hf c ((hkeep f hf).trans hc)
  · intro p hp
    obtain ⟨hhead, htail⟩ := List.forall_mem_cons.mp hp
    rw [hrest_unchanged p htail]
    exact hfirst.unchanged p (List.forall_mem_singleton.mpr hhead)

/-- By induction on the files. That the rest still fits is part of what one file leaves. -/
theorem applied_files (hfits : ∀ src ∈ files, Fits root tree src)
    (hskip : ∀ src ∈ files, skipped src.rel = false)
    (hsep : files.Pairwise fun f g => Separate root tree f.rel g.rel)
    (h : files.foldlM (applyFile root) tree = some tree') : Applied root tree tree' files := by
  induction files generalizing tree with
  | nil =>
    cases h
    refine ⟨fun p => rfl, fun src hsrc => ?_, fun src hsrc => ?_, fun p _ => rfl⟩
    · cases hsrc
    · cases hsrc
  | cons src files ih =>
    rw [List.foldlM_cons] at h
    obtain ⟨tree₁, hsrc, hrest⟩ := Option.bind_eq_some_iff.mp h
    obtain ⟨hfit, hfits⟩ := List.forall_mem_cons.mp hfits
    obtain ⟨hs, hskips⟩ := List.forall_mem_cons.mp hskip
    obtain ⟨hparts, hsep⟩ := List.pairwise_cons.mp hsep
    obtain ⟨hfirst, hdirs⟩ := applied_file hfit hs hsrc
    refine Applied.cons hfit hfits hparts hfirst ?_
    refine ih (fun g hg => ?_) hskips (hsep.imp fun hfg => hfg.congr hfirst.links) hrest
    exact (hfits g hg).applied hfit (hparts g hg).symm hfirst.links hdirs

theorem foldlM_patches (files : List (MirrorFile γ)) (tree : FileTree Name γ) :
    files.foldlM (applyFile root) tree =
      (files.filter fun src => ¬ skipped src.rel).foldlM (applyFile root) tree := by
  induction files generalizing tree with
  | nil => rfl
  | cons src files ih =>
    cases hskip : skipped src.rel with
    | true =>
      rw [List.filter_cons_of_neg (by simp [hskip]), ← ih, List.foldlM_cons, applyFile,
        if_pos hskip]
      rfl
    | false =>
      rw [List.filter_cons_of_pos (by simp [hskip]), List.foldlM_cons, List.foldlM_cons]
      congr 1
      funext tree₁
      exact ih tree₁

/-- The files that a run copies have paths of their own. -/
theorem Mirror.patches_pairwise (mirror : Mirror γ) :
    mirror.patches.Pairwise fun f g => g.rel ≠ f.rel := by
  refine (mirror.apart.filter _).imp fun hfg heq => ?_
  exact hfg.1 (heq ▸ List.prefix_refl _)

/-- **One run** of the script on a tree that all patched files fit. -/
theorem applied_mirror {mirror : Mirror γ} (hfits : ∀ src ∈ mirror.patches, Fits root tree src)
    (hsep : ∀ f ∈ mirror.patches, ∀ g ∈ mirror.patches, g.rel ≠ f.rel →
      Separate root tree f.rel g.rel)
    (h : applyPatches root tree mirror = some tree') :
    Applied root tree tree' mirror.patches := by
  unfold applyPatches at h
  split at h
  · cases h
  · rw [foldlM_patches] at h
    refine applied_files hfits (fun src hsrc => ?_) ?_ h
    · simpa using (List.mem_filter.mp hsrc).2
    · exact mirror.patches_pairwise.imp_of_mem fun hf hg hne => hsep _ hf _ hg hne

end Files

/-! ## Any number of runs -/

section Runs

/-- The run or an earlier one patches the path. -/
def Patched (s : State γ) (mirror : Mirror γ) (p : Path) : Prop :=
  s.original p ≠ none ∨ p ∈ mirror.patches.map MirrorFile.rel

/-- Every file that the run copies fits, its places are separate from those of the other patched
paths, and when an earlier run has patched it, it still has its original content. -/
def Ok (root : Path) (s : State γ) (mirror : Mirror γ) : Prop :=
  ∀ src ∈ mirror.patches, Fits root s.tree src ∧
    (∀ p, p ≠ src.rel → Patched s mirror p → Separate root s.tree src.rel p) ∧
    ∀ c, s.original src.rel = some (some c) → s.tree.content (dst root src.rel) = some c

/-- The files of the mirror are in the tree after the run. -/
def LeavesMirror (root : Path) (s : State γ) (mirror : Mirror γ) : Prop :=
  ∀ src ∈ mirror.patches,
    ((patching root γ).step s mirror).tree.content (dst root src.rel) = some src.content

/-- The path may have this content after the files of the backup have been copied back, in any
order: that of a backup whose path leads to the same place, or its own when there is none. -/
def Restores (root : Path) (tree : FileTree Name γ) (p : Path) (c : γ) : Prop :=
  (∃ q, tree.SamePlace (dst root q) (dst root p) ∧ tree.content (backup root q) = some c) ∨
    (∀ q, tree.SamePlace (dst root q) (dst root p) → tree.content (backup root q) = none) ∧
      tree.content (dst root p) = some c

/-- What the runs keep of the tree that the first one met. -/
structure Inv (root : Path) (first : FileTree Name γ) (s : State γ) : Prop where
  links : first.SameLinks s.tree
  outside : ∀ p, s.original p ≠ none → ∀ q, first.Apart (dst root p) (backup root q)
  single : ∀ p, s.original p ≠ none → ∀ q, q ≠ p →
    ¬ first.SamePlace (backup root p) (backup root q)
  kept : ∀ p c, s.original p = some (some c) → s.tree.content (backup root p) = some c
  original_eq : ∀ p o, s.original p = some o → o = first.content (dst root p)
  untouched : ∀ p, (∀ q, s.original q ≠ none → ¬ first.SamePlace p (dst root q) ∧
    ¬ first.SamePlace p (backup root q)) → s.tree.content p = first.content p

variable {root : Path} {first : FileTree Name γ} {s t : State γ} {mirror : Mirror γ}
  {mirrors : List (Mirror γ)} {p : Path}

theorem applied_step (hok : Ok root s mirror) (henabled : (patching root γ).enabled s mirror) :
    Applied root s.tree ((patching root γ).step s mirror).tree mirror.patches := by
  obtain ⟨tree', h⟩ := Option.isSome_iff_exists.mp henabled
  have htree : ((patching root γ).step s mirror).tree = tree' := by
    simp only [patching, h, Option.getD_some]
  rw [htree]
  refine applied_mirror (fun src hsrc => (hok src hsrc).1) (fun f hf g hg hne => ?_) h
  exact (hok f hf).2.1 g.rel hne (Or.inr (List.mem_map_of_mem hg))

/-- What `original` is after a run: as before, or what the run has found. -/
theorem original_step (p : Path) : ((patching root γ).step s mirror).original p =
    (s.original p).or (if p ∈ mirror.patches.map MirrorFile.rel
      then some (s.tree.content (dst root p)) else none) := rfl

theorem original_step_ne_none :
    ((patching root γ).step s mirror).original p ≠ none ↔ Patched s mirror p := by
  rw [original_step, Patched]
  by_cases hp : p ∈ mirror.patches.map MirrorFile.rel
  · rw [if_pos hp]
    exact iff_of_true (by simp) (Or.inr hp)
  · rw [if_neg hp, Option.or_none]
    exact ⟨Or.inl, fun h => h.resolve_right hp⟩

/-- The backup of a path that the run does not copy stays. -/
theorem backup_unchanged (hok : Ok root s mirror)
    (henabled : (patching root γ).enabled s mirror)
    (hp : p ∉ mirror.patches.map MirrorFile.rel) :
    ((patching root γ).step s mirror).tree.content (backup root p) =
      s.tree.content (backup root p) := by
  refine (applied_step hok henabled).unchanged _ fun src hsrc => ?_
  have hne : p ≠ src.rel := fun heq => hp (heq ▸ List.mem_map_of_mem hsrc)
  have hfits := (hok src hsrc).1
  exact ⟨fun hs => (hfits.outside p).not_same hs.symm, fun hs => hfits.single p hne hs.symm⟩

theorem Inv.step (hinv : Inv root first s) (hok : Ok root s mirror)
    (henabled : (patching root γ).enabled s mirror) :
    Inv root first ((patching root γ).step s mirror) := by
  have happ := applied_step hok henabled
  have hlinks : first.SameLinks ((patching root γ).step s mirror).tree :=
    hinv.links.trans happ.links
  refine ⟨hlinks, ?_, ?_, ?_, ?_, ?_⟩
  · intro p hp q
    rcases original_step_ne_none.mp hp with hp | hp
    · exact hinv.outside p hp q
    · obtain ⟨src, hsrc, rfl⟩ := List.mem_map.mp hp
      exact hinv.links.apart_iff.mp ((hok src hsrc).1.outside q)
  · intro p hp q hq hs
    rcases original_step_ne_none.mp hp with hp | hp
    · exact hinv.single p hp q hq hs
    · obtain ⟨src, hsrc, rfl⟩ := List.mem_map.mp hp
      exact (hok src hsrc).1.single q hq (hinv.links.samePlace_iff.mpr hs)
  · intro p c hc
    rw [original_step] at hc
    by_cases hp : p ∈ mirror.patches.map MirrorFile.rel
    · -- the run has copied the file, which still has its original content
      obtain ⟨src, hsrc, rfl⟩ := List.mem_map.mp hp
      refine happ.kept src hsrc c ?_
      cases horig : s.original src.rel with
      | none =>
        rw [horig, if_pos hp] at hc
        exact Option.some.inj hc
      | some o =>
        rw [horig] at hc
        cases hc
        exact (hok src hsrc).2.2 c horig
    · rw [if_neg hp, Option.or_none] at hc
      rw [backup_unchanged hok henabled hp]
      exact hinv.kept p c hc
  · intro p o ho
    rw [original_step] at ho
    cases horig : s.original p with
    | some o' =>
      rw [horig] at ho
      cases ho
      exact hinv.original_eq p o horig
    | none =>
      rw [horig] at ho
      by_cases hp : p ∈ mirror.patches.map MirrorFile.rel
      · -- the first run that has the file finds it as it was at first
        rw [if_pos hp] at ho
        cases ho
        obtain ⟨src, hsrc, rfl⟩ := List.mem_map.mp hp
        refine hinv.untouched _ fun q hq => ⟨fun hs => ?_, fun hs => ?_⟩
        · have hne : q ≠ src.rel := fun heq => hq (heq ▸ horig)
          refine ((hok src hsrc).2.1 q hne (Or.inl hq)).dst.not_same ?_
          exact hinv.links.samePlace_iff.mpr hs
        · exact ((hok src hsrc).1.outside q).not_same (hinv.links.samePlace_iff.mpr hs)
      · rw [if_neg hp] at ho
        cases ho
  · intro p hp
    rw [happ.unchanged p fun src hsrc => ?_]
    · exact hinv.untouched p fun q hq => hp q (original_step_ne_none.mpr (Or.inl hq))
    · rw [hinv.links.samePlace_iff, hinv.links.samePlace_iff]
      exact hp src.rel (original_step_ne_none.mpr (Or.inr (List.mem_map_of_mem hsrc)))

/-- A file that was there at first is there again, patched or not, and whatever link leads to it. -/
theorem Inv.restores_iff (hinv : Inv root first s) {c : γ}
    (hout : ∀ q, ¬ first.SamePlace (dst root p) (backup root q))
    (hfresh : ∀ q, first.SamePlace (dst root q) (dst root p) → first.content (backup root q) = none)
    (hp : first.content (dst root p) = some c) (c' : γ) :
    Restores root s.tree p c' ↔ c' = c := by
  -- the backups of paths to the same place have the content that the first run met
  have hbackup : ∀ q, s.tree.SamePlace (dst root q) (dst root p) →
      s.tree.content (backup root q) = if s.original q = none then none else some c := by
    intro q hq
    have hq := hinv.links.samePlace_iff.mp hq
    cases horig : s.original q with
    | none =>
      rw [if_pos rfl, hinv.untouched _ fun r hr => ⟨fun hs => ?_, fun hs => ?_⟩]
      · exact hfresh q hq
      · exact (hinv.outside r hr q).not_same hs.symm
      · exact hinv.single r hr q (fun heq => hr (heq ▸ horig)) hs.symm
    | some o =>
      have ho : o = some c := by
        rw [hinv.original_eq q o horig, hq.content_eq, hp]
      rw [if_neg (Option.some_ne_none o)]
      exact hinv.kept q c (ho ▸ horig)
  -- and the file itself has it when no such path is patched
  have hself : (∀ q, s.tree.SamePlace (dst root q) (dst root p) → s.original q = none) →
      s.tree.content (dst root p) = some c := by
    intro hnone
    rw [hinv.untouched _ fun q hq => ⟨fun hs => ?_, hout q⟩, hp]
    exact hq (hnone q (hinv.links.samePlace_iff.mpr hs.symm))
  constructor
  · rintro (⟨q, hq, hc'⟩ | ⟨hall, hc'⟩)
    · rw [hbackup q hq] at hc'
      split at hc'
      · cases hc'
      · exact (Option.some.inj hc').symm
    · rw [hself fun q hq => ?_] at hc'
      · exact (Option.some.inj hc').symm
      · by_contra hne
        have hnone := hall q hq
        rw [hbackup q hq, if_neg hne] at hnone
        cases hnone
  · rintro rfl
    by_cases h : ∃ q, s.tree.SamePlace (dst root q) (dst root p) ∧ s.original q ≠ none
    · obtain ⟨q, hq, hne⟩ := h
      exact Or.inl ⟨q, hq, (hbackup q hq).trans (if_neg hne)⟩
    · have hnone : ∀ q, s.tree.SamePlace (dst root q) (dst root p) → s.original q = none := by
        intro q hq
        by_contra hne
        exact h ⟨q, hq, hne⟩
      exact Or.inr ⟨fun q hq => (hbackup q hq).trans (if_pos (hnone q hq)), hself hnone⟩

/-- **The backup keeps the originals** in every sequence of completed runs that meet the condition:
it has the content from before the first run that patched a file, and copied back it gives each
file of the first tree outside of the backup its content again, where the first tree had nothing
that would be copied over it. Each run leaves the files of the mirror in the tree. -/
theorem backup_keeps_originals
    (hrun : ((patching root γ).restrict (Ok root)).Run { tree := first } mirrors s) :
    (∀ p c, s.original p = some (some c) → s.tree.content (backup root p) = some c) ∧
      (∀ p c, (∀ q, ¬ first.SamePlace (dst root p) (backup root q)) →
        (∀ q, first.SamePlace (dst root q) (dst root p) → first.content (backup root q) = none) →
        first.content (dst root p) = some c → ∀ c', Restores root s.tree p c' ↔ c' = c) ∧
      ((patching root γ).restrict (LeavesMirror root)).Run { tree := first } mirrors s := by
  have hinit : Inv root first { tree := first } := by
    refine ⟨fun p => rfl, ?_, ?_, ?_, ?_, fun p _ => rfl⟩
    · exact fun p hp => absurd rfl hp
    · exact fun p hp => absurd rfl hp
    · exact fun p c hp => nomatch hp
    · exact fun p o hp => nomatch hp
  have hstep : ∀ s mirror, Inv root first s →
      ((patching root γ).restrict (Ok root)).enabled s mirror →
      Inv root first (((patching root γ).restrict (Ok root)).step s mirror) :=
    fun s mirror hinv henabled => hinv.step henabled.2 henabled.1
  have hinv : Inv root first s := hrun.invariant hstep hinit
  refine ⟨hinv.kept, fun p c hout hfresh hp => hinv.restores_iff hout hfresh hp, ?_⟩
  refine hrun.mono rfl fun s mirror henabled => ⟨henabled.1, fun src hsrc => ?_⟩
  exact (applied_step henabled.2 henabled.1).patched src hsrc

end Runs

/-! ## The same file twice -/

/-- A source tree with the file `init.c` and a link to it. -/
def initTree : FileTree Name Nat :=
  (((FileTree.empty.mkdirP ["ohos".toList, "build".toList]).bind
    (·.copyTo ["ohos".toList] "init.c".toList 1)).getD .empty).put
      ["ohos".toList, "old.c".toList] (.link ["ohos".toList, "init.c".toList]) rfl (by decide)

/-- A mirror with a patched `init.c`. -/
def initMirror : Mirror Nat where
  files := [{ dirname := [], basename := "init.c".toList, content := 2 }]
  apart := List.pairwise_singleton _ _

/-- A mirror with a new `Makefile`. -/
def makeMirror : Mirror Nat where
  files := [{ dirname := ["kernel".toList], basename := "Makefile".toList, content := 3 }]
  apart := List.pairwise_singleton _ _

/-- A mirror that has the link, too. -/
def bothMirror : Mirror Nat where
  files := [{ dirname := [], basename := "old.c".toList, content := 4 },
    { dirname := [], basename := "init.c".toList, content := 2 }]
  apart := by decide

/-- The second run takes the patched file for the original. -/
theorem second_run_overwrites_backup :
    ∃ s : State Nat,
      (patching ["ohos".toList] Nat).Run { tree := initTree } [initMirror, initMirror] s ∧
      s.original ["init.c".toList] = some (some 1) ∧
      s.tree.content (backup ["ohos".toList] ["init.c".toList]) = some 2 := by
  refine ⟨_, System.Run.of_enabledAll ⟨?_, ?_, trivial⟩, ?_, ?_⟩
  · rfl
  · rfl
  · rfl
  · rfl

/-- The same within one run, when two of its files are the same one. -/
example : ∃ s : State Nat,
    (patching ["ohos".toList] Nat).Run { tree := initTree } [bothMirror] s ∧
      s.original ["init.c".toList] = some (some 1) ∧
      s.tree.content (backup ["ohos".toList] ["init.c".toList]) = some 4 ∧
      s.tree.content (dst ["ohos".toList] ["old.c".toList]) = some 2 := by
  refine ⟨_, System.Run.of_enabledAll ⟨?_, trivial⟩, ?_, ?_, ?_⟩
  · rfl
  · rfl
  · rfl
  · rfl

theorem initTree_node (p : Path) : initTree.node p =
    if p = ["ohos".toList, "old.c".toList] then some (.link ["ohos".toList, "init.c".toList])
    else if p = ["ohos".toList, "init.c".toList] then some (.file 1)
    else if p <+: ["ohos".toList, "build".toList] then some .dir
    else if p.isEmpty then some .dir else none := rfl

/-- Without the one link, a path leads to itself, also after any run. -/
theorem canon_of_initTree {tree : FileTree Name Nat} (hlinks : initTree.SameLinks tree) {p : Path}
    (hp : ¬ ["ohos".toList, "old.c".toList] <+: p) : tree.canon p = some p := by
  rw [hlinks.canon_eq]
  refine FileTree.canon_eq_self fun q hq => ?_
  have hne : q ≠ ["ohos".toList, "old.c".toList] := fun heq => hp (heq ▸ hq)
  unfold FileTree.link?
  rw [initTree_node, if_neg hne]
  split_ifs <;> rfl

/-- Paths below other names than `old.c` and `.opencode` are separate from the backup. -/
theorem fits_of_initTree {tree : FileTree Name Nat} (hlinks : initTree.SameLinks tree)
    {src : MirrorFile Nat} {name : Name} {rest : Path} (hrel : src.rel = name :: rest)
    (hold : name ≠ "old.c".toList) (hopencode : name ≠ ".opencode".toList)
    (hdst : ¬ tree.IsDir (dst ["ohos".toList] src.rel))
    (hbackup : ¬ tree.IsDir (backup ["ohos".toList] src.rel)) :
    Fits ["ohos".toList] tree src := by
  have hcanon : ∀ p, tree.canon (backup ["ohos".toList] p) = some (backup ["ohos".toList] p) :=
    fun p => canon_of_initTree hlinks (by simp [backup, backupDir])
  refine ⟨hdst, hbackup, fun p => ?_, fun p hp hs => ?_⟩
  · refine FileTree.Apart.of_canon (canon_of_initTree hlinks ?_) (hcanon p) ?_ ?_
    · simpa [dst, hrel, List.cons_prefix_cons] using hold.symm
    · simp only [dst, hrel, backup, backupDir, List.cons_append, List.nil_append,
        List.cons_prefix_cons, true_and]
      exact fun h => hopencode h.1
    · simp only [dst, hrel, backup, backupDir, List.cons_append, List.nil_append,
        List.cons_prefix_cons, true_and]
      exact fun h => hopencode h.1.symm
  · have heq := hs.canon_eq
    rw [hcanon, hcanon] at heq
    exact hp (List.append_cancel_left (Option.some.inj heq)).symm

/-- A run that patches a file, and one that adds a file. The link has the original again, too. -/
theorem backup_keeps_originals_initTree : ∃ s : State Nat,
    ((patching ["ohos".toList] Nat).restrict (Ok ["ohos".toList])).Run { tree := initTree }
        [initMirror, makeMirror] s ∧
      s.tree.content (dst ["ohos".toList] ["init.c".toList]) = some 2 ∧
      Restores ["ohos".toList] s.tree ["old.c".toList] 1 := by
  have hok : Ok ["ohos".toList] { tree := initTree } initMirror := by
    refine List.forall_mem_singleton.mpr ⟨?_, ?_, ?_⟩
    · exact fits_of_initTree (fun p => rfl) rfl (by decide) (by decide) (by decide) (by decide)
    · rintro p hp (hpatched | hpatched)
      · exact absurd rfl hpatched
      · exact absurd (List.mem_singleton.mp hpatched) hp
    · exact fun c hc => nomatch hc
  have hlinks := (applied_step hok rfl).links
  have hok' : Ok ["ohos".toList]
      ((patching ["ohos".toList] Nat).step { tree := initTree } initMirror) makeMirror := by
    refine List.forall_mem_singleton.mpr ⟨?_, ?_, ?_⟩
    · exact fits_of_initTree hlinks rfl (by decide) (by decide) (by decide) (by decide)
    · rintro p hp (hpatched | hpatched)
      · rcases original_step_ne_none.mp hpatched with h | h
        · exact absurd rfl h
        · rw [List.mem_singleton.mp h]
          constructor
          · exact FileTree.Apart.of_canon (canon_of_initTree hlinks (by decide))
              (canon_of_initTree hlinks (by decide)) (by decide) (by decide)
          · exact FileTree.Apart.of_canon (canon_of_initTree hlinks (by decide))
              (canon_of_initTree hlinks (by decide)) (by decide) (by decide)
      · exact absurd (List.mem_singleton.mp hpatched) hp
    · exact fun c hc => nomatch hc
  have hrun : ((patching ["ohos".toList] Nat).restrict (Ok ["ohos".toList])).Run
      { tree := initTree } [initMirror, makeMirror]
      ([initMirror, makeMirror].foldl (patching ["ohos".toList] Nat).step { tree := initTree }) :=
    System.Run.of_enabledAll ⟨⟨rfl, hok⟩, ⟨rfl, hok'⟩, trivial⟩
  have hcanon : ∀ p, initTree.canon (backup ["ohos".toList] p) =
      some (backup ["ohos".toList] p) :=
    fun p => canon_of_initTree (fun q => rfl) (by simp [backup, backupDir])
  refine ⟨_, hrun, rfl, ?_⟩
  refine ((backup_keeps_originals hrun).2.1 ["old.c".toList] 1 ?_ ?_ rfl 1).mpr rfl
  · intro q hs
    have heq := hs.canon_eq
    rw [hcanon, show initTree.canon (dst ["ohos".toList] ["old.c".toList]) =
      some ["ohos".toList, "init.c".toList] from rfl] at heq
    simp [backup, backupDir] at heq
  · intro q _
    unfold FileTree.content
    rw [hcanon, Option.bind_some, FileTree.fileAt, initTree_node]
    simp [backup, backupDir, List.cons_prefix_cons]

end ApplyPatches
