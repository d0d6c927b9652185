import OpenHarmonyMac.Infra.Ordered
import OpenHarmonyMac.Tools.Maps

/-!
# The maps that a thread waits in

`dump_wchan` looks for the lines of the maps that hold the address of the futex that a thread waits
for. It reads the maps piece by piece, and looks for lines in each of these alone.

* `mapsScan` — the loop over the reads
* `readParts` — what stands between the newlines of the reads
* `mapsScan_collects_iff` — when the lines are found
-/

namespace DumpWchan

open Infra Maps

/-- A text, with its place in the maps. -/
structure Piece where
  offset : Nat
  text : Text
  deriving DecidableEq, Repr

/-- `got`, `mp`, and the pieces that were put into `mp`. -/
structure Scan where
  got : Nat := 0
  mp : Text := []
  pieces : List Piece := []

/-- `strncat` into a buffer of `size` bytes, with the rest of it as the limit. -/
def strncat (size : Nat) (dst src : Text) : Text := dst ++ src.take (size - dst.length - 1)

/-- The condition on a line. -/
def hits (faddr : Nat) (p : Text) : Bool :=
  match sscanfRange p with
  | some (a, b) => faddr == 0 || (a ≤ faddr && faddr < b)
  | none => false

def Scan.add (s : Scan) (piece : Piece) : Scan where
  got := s.got + 1
  mp := strncat 1024 (strncat 1024 s.mp piece.text) ['|']
  pieces := s.pieces ++ [piece]

/-- The body of the inner loop for a line. -/
def Scan.see (faddr : Nat) (s : Scan) (piece : Piece) : Scan :=
  if hits faddr piece.text then s.add piece else s

/-- The inner loop from `p` on, which stands at `offset`. -/
def scanLine (faddr offset : Nat) (p : Text) (s : Scan) : Scan :=
  if p = [] ∨ 6 ≤ s.got then s
  else
    match _h : p.dropWhile (· != '\n') with
    | [] => s.see faddr ⟨offset, p⟩
    | _ :: behind => scanLine faddr (offset + (p.takeWhile (· != '\n')).length + 1) behind
        (s.see faddr ⟨offset, p.takeWhile (· != '\n')⟩)
termination_by p.length
decreasing_by
  exact length_lt_of_dropWhile _h

/-- The outer loop. A read that does not fill the buffer is the last one. -/
def scanReads (faddr offset : Nat) : List Text → Scan → Scan
  | [], s => s
  | line :: reads, s =>
    if 6 ≤ s.got then s
    else if line.length < 511 then scanLine faddr offset line s
    else scanReads faddr (offset + line.length) reads (scanLine faddr offset line s)

def mapsScan (faddr : Nat) (reads : List Text) : Scan := scanReads faddr 0 reads {}

/-! ## What should be found -/

/-- The lines with their places in the maps -/
def placed (offset : Nat) : List Line → List (Nat × Line)
  | [] => []
  | l :: lines => (offset, l) :: placed (offset + l.text.length + 1) lines

/-- The line is one of those that are looked for. -/
def Wanted (faddr : Nat) (l : Line) : Prop := faddr = 0 ∨ l.Contains faddr

instance (faddr : Nat) (l : Line) : Decidable (Wanted faddr l) :=
  inferInstanceAs (Decidable (_ ∨ _))

def wantedPieces (faddr : Nat) (lines : List Line) : List Piece :=
  ((placed 0 lines).filter fun p => Wanted faddr p.2).map fun p => ⟨p.1, p.2.text⟩

/-- What `read` returns of the maps, until it returns 0. -/
structure Reads (lines : List Line) where
  results : List Text
  flatten_eq : results.flatten = render lines
  size : ∀ r ∈ results, r ≠ [] ∧ r.length ≤ 511

/-- The first six lines that are looked for are found and no other, and they are in `mp`. -/
structure Collects (faddr : Nat) (lines : List Line) (reads : List Text) : Prop where
  pieces : (mapsScan faddr reads).pieces = (wantedPieces faddr lines).take 6
  mp : (mapsScan faddr reads).mp =
    ((wantedPieces faddr lines).take 6).flatMap fun piece => piece.text ++ ['|']

/-! ## What stands in the reads -/

/-- The text between the newlines, where `s` stands at `offset`. -/
def parts (offset : Nat) (s : Text) : List Piece :=
  match _h : s.dropWhile (· != '\n') with
  | [] => [⟨offset, s⟩]
  | _ :: behind => ⟨offset, s.takeWhile (· != '\n')⟩ ::
      parts (offset + (s.takeWhile (· != '\n')).length + 1) behind
termination_by s.length
decreasing_by
  exact length_lt_of_dropWhile _h

/-- The parts of the reads up to the first one that does not fill the buffer -/
def readParts (offset : Nat) : List Text → List Piece
  | [] => []
  | line :: reads => parts offset line ++
      if line.length < 511 then [] else readParts (offset + line.length) reads

/-- Up to the sixth line that is looked for: each of these is a part of a read, and nothing of the
others that is one looks like such a line; and the six of them fit into `mp`. -/
structure ReadWhole (faddr : Nat) (lines : List Line) (reads : List Text) : Prop where
  whole : ∀ p ∈ placed 0 lines,
    (wantedPieces faddr lines).countP (fun piece => piece.offset < p.1) < 6 →
    Wanted faddr p.2 → ⟨p.1, p.2.text⟩ ∈ readParts 0 reads
  apart : ∀ p ∈ placed 0 lines,
    (wantedPieces faddr lines).countP (fun piece => piece.offset < p.1) < 6 →
    ¬ Wanted faddr p.2 → ∀ piece ∈ readParts 0 reads, p.1 ≤ piece.offset →
      piece.offset + piece.text.length ≤ p.1 + p.2.text.length → hits faddr piece.text = false
  fits : (((wantedPieces faddr lines).take 6).flatMap
    fun piece => piece.text ++ ['|']).length < 1024

/-! ## Newlines -/

section Newline

variable {s line behind : Text} {offset : Nat}

/-- A text has no newline, or a first one. -/
theorem newline_cases (s : Text) :
    '\n' ∉ s ∨ ∃ line behind, s = line ++ '\n' :: behind ∧ '\n' ∉ line := by
  by_cases h : '\n' ∈ s
  · exact .inr (List.eq_append_cons_of_mem h)
  · exact .inl h

theorem parts_of_not_mem (hs : '\n' ∉ s) : parts offset s = [⟨offset, s⟩] := by
  rw [parts]
  split
  · rfl
  · next h => simp [dropWhile_of_not_mem hs] at h

theorem parts_append (hline : '\n' ∉ line) (behind : Text) :
    parts offset (line ++ '\n' :: behind) =
      ⟨offset, line⟩ :: parts (offset + line.length + 1) behind := by
  have htake := takeWhile_append_sep hline behind
  have hdrop := dropWhile_append_sep hline behind
  rw [parts]
  split
  · next h => simp [hdrop] at h
  · next h =>
    cases hdrop.symm.trans h
    rw [htake]

/-- Induction along the lines of a text. -/
theorem newline_induction {P : Text → Prop} (last : ∀ s, '\n' ∉ s → P s)
    (line : ∀ l behind, '\n' ∉ l → P behind → P (l ++ '\n' :: behind)) (s : Text) : P s := by
  generalize hn : s.length = n
  induction n using Nat.strongRecOn generalizing s with
  | _ n ih =>
    rcases newline_cases s with hs | ⟨l, behind, rfl, hl⟩
    · exact last s hs
    · refine line l behind hl (ih behind.length ?_ behind rfl)
      rw [← hn, List.length_append, List.length_cons]
      omega

end Newline

/-! ## The scan -/

section Scan

variable {faddr offset : Nat} {s : Scan} {p line behind : Text} {ps : List Piece}

theorem hits_nil (faddr : Nat) : hits faddr [] = false := by
  rfl

/-- What the scan does with a part of a read. -/
def Scan.collect (faddr : Nat) (s : Scan) (piece : Piece) : Scan :=
  if 6 ≤ s.got then s else s.see faddr piece

theorem collect_nil (s : Scan) (offset : Nat) : s.collect faddr ⟨offset, []⟩ = s := by
  simp [Scan.collect, Scan.see, hits_nil]

theorem foldl_collect_of_le (h : 6 ≤ s.got) (ps : List Piece) :
    ps.foldl (Scan.collect faddr) s = s := by
  induction ps with
  | nil => rfl
  | cons piece ps ih => rw [List.foldl_cons, Scan.collect, if_pos h, ih]

theorem scanLine_eq (faddr offset : Nat) (p : Text) (s : Scan) :
    scanLine faddr offset p s = (parts offset p).foldl (Scan.collect faddr) s := by
  induction p using newline_induction generalizing offset s with
  | last p hp =>
    rw [parts_of_not_mem hp, List.foldl_cons, List.foldl_nil, scanLine]
    by_cases hnil : p = []
    · rw [if_pos (.inl hnil), hnil, collect_nil]
    · rw [Scan.collect]
      by_cases hgot : 6 ≤ s.got
      · rw [if_pos (.inr hgot), if_pos hgot]
      · rw [if_neg (not_or.mpr ⟨hnil, hgot⟩), if_neg hgot]
        split
        · rfl
        · next h => simp [dropWhile_of_not_mem hp] at h
  | line l behind hl ih =>
    have htake := takeWhile_append_sep hl behind
    have hdrop := dropWhile_append_sep hl behind
    rw [parts_append hl, List.foldl_cons, scanLine]
    by_cases hgot : 6 ≤ s.got
    · rw [if_pos (.inr hgot), Scan.collect, if_pos hgot, foldl_collect_of_le hgot]
    · rw [if_neg (not_or.mpr ⟨by simp, hgot⟩), Scan.collect, if_neg hgot]
      split
      · next h => simp [hdrop] at h
      · next h =>
        cases hdrop.symm.trans h
        rw [htake, ih]

theorem scanReads_eq (faddr offset : Nat) (reads : List Text) (s : Scan) :
    scanReads faddr offset reads s = (readParts offset reads).foldl (Scan.collect faddr) s := by
  induction reads generalizing offset s with
  | nil => rfl
  | cons line reads ih =>
    rw [scanReads, readParts, List.foldl_append]
    by_cases hgot : 6 ≤ s.got
    · rw [if_pos hgot, foldl_collect_of_le hgot, foldl_collect_of_le hgot]
    · rw [if_neg hgot, scanLine_eq]
      split
      · rfl
      · exact ih _ _

/-- The scan adds the parts that hit, up to the sixth. -/
theorem foldl_collect (ps : List Piece) (s : Scan) :
    ps.foldl (Scan.collect faddr) s =
      ((ps.filter fun piece => hits faddr piece.text).take (6 - s.got)).foldl Scan.add s := by
  induction ps generalizing s with
  | nil => simp
  | cons piece ps ih =>
    by_cases hgot : 6 ≤ s.got
    · rw [foldl_collect_of_le hgot, Nat.sub_eq_zero_of_le hgot]
      rfl
    rw [List.foldl_cons, ih, Scan.collect, if_neg hgot, Scan.see, List.filter_cons]
    cases hhits : hits faddr piece.text with
    | false => rfl
    | true =>
      rw [if_pos rfl, if_pos rfl]
      obtain ⟨n, hn⟩ : ∃ n, 6 - s.got = n + 1 := ⟨5 - s.got, by omega⟩
      have hn' : 6 - (s.add piece).got = n := by
        simp only [Scan.add]
        omega
      rw [hn, hn', List.take_succ_cons, List.foldl_cons]

theorem foldl_add_pieces (ps : List Piece) (s : Scan) :
    (ps.foldl Scan.add s).pieces = s.pieces ++ ps := by
  induction ps generalizing s with
  | nil => simp
  | cons piece ps ih => simp [ih, Scan.add]

theorem strncat_eq_take {dst src : Text} (h : dst.length < 1024) :
    strncat 1024 dst src = (dst ++ src).take 1023 := by
  have hroom : 1024 - dst.length - 1 = 1023 - dst.length := by omega
  have hdst : dst.take 1023 = dst := List.take_of_length_le (by omega)
  rw [strncat, hroom, List.take_append, hdst]

theorem take_take_append (n : Nat) (x y : Text) : (x.take n ++ y).take n = (x ++ y).take n := by
  have hroom : n - min n x.length = n - x.length := by omega
  rw [List.take_append, List.take_append, List.take_take, List.length_take, Nat.min_self, hroom]

/-- What is added stands in `mp`, as far as there is room. -/
theorem foldl_add_mp (ps : List Piece) (s : Scan) (hs : s.mp.length < 1024) :
    (ps.foldl Scan.add s).mp =
      (s.mp ++ ps.flatMap fun piece => piece.text ++ ['|']).take 1023 := by
  induction ps generalizing s with
  | nil =>
    rw [List.foldl_nil, List.flatMap_nil, List.append_nil, List.take_of_length_le (by omega)]
  | cons piece ps ih =>
    have hone : (strncat 1024 s.mp piece.text).length < 1024 := by
      rw [strncat_eq_take hs, List.length_take]
      omega
    have hadd : (s.add piece).mp = (s.mp ++ (piece.text ++ ['|'])).take 1023 := by
      simp only [Scan.add]
      rw [strncat_eq_take hone, strncat_eq_take hs, take_take_append, List.append_assoc]
    have hlen : (s.add piece).mp.length < 1024 := by
      rw [hadd, List.length_take]
      omega
    rw [List.foldl_cons, ih _ hlen, hadd, take_take_append, List.flatMap_cons, List.append_assoc]

end Scan

/-! ## Parts and lines -/

section Place

variable {faddr offset : Nat} {s t x y : Text} {piece : Piece} {reads : List Text}
  {lines : List Line} {p : Nat × Line}

/-- A part stands where its place says, in one line. -/
theorem mem_parts (h : piece ∈ parts offset s) : ∃ x y, s = x ++ (piece.text ++ y) ∧
    piece.offset = offset + x.length ∧ '\n' ∉ piece.text := by
  induction s using newline_induction generalizing offset with
  | last s hs =>
    rw [parts_of_not_mem hs, List.mem_singleton] at h
    exact ⟨[], [], by simp [h], by simp [h], by simpa [h] using hs⟩
  | line l behind hl ih =>
    rw [parts_append hl, List.mem_cons] at h
    rcases h with rfl | h
    · exact ⟨[], '\n' :: behind, rfl, rfl, hl⟩
    · obtain ⟨x, y, rfl, hoffset, hnot⟩ := ih h
      refine ⟨l ++ '\n' :: x, y, by simp, ?_, hnot⟩
      rw [hoffset, List.length_append, List.length_cons]
      omega

theorem pairwise_parts (offset : Nat) (s : Text) :
    (parts offset s).Pairwise fun a b => a.offset + a.text.length < b.offset := by
  induction s using newline_induction generalizing offset with
  | last s hs =>
    rw [parts_of_not_mem hs]
    exact List.pairwise_singleton _ _
  | line l behind hl ih =>
    rw [parts_append hl, List.pairwise_cons]
    refine ⟨fun b hb => ?_, ih _⟩
    obtain ⟨x, y, -, hoffset, -⟩ := mem_parts hb
    rw [hoffset]
    dsimp only
    omega

theorem mem_readParts (h : piece ∈ readParts offset reads) :
    ∃ x y, reads.flatten = x ++ (piece.text ++ y) ∧ piece.offset = offset + x.length ∧
      '\n' ∉ piece.text := by
  induction reads generalizing offset with
  | nil => cases h
  | cons line reads ih =>
    rw [readParts, List.mem_append] at h
    rcases h with h | h
    · obtain ⟨x, y, hline, hoffset, hnot⟩ := mem_parts h
      exact ⟨x, y ++ reads.flatten, by simp [hline], hoffset, hnot⟩
    · split at h
      case isTrue => cases h
      case isFalse =>
        obtain ⟨x, y, hflatten, hoffset, hnot⟩ := ih h
        refine ⟨line ++ x, y, by simp [hflatten], ?_, hnot⟩
        rw [hoffset, List.length_append]
        omega

/-- The parts of the reads do not overlap. -/
theorem pairwise_readParts (offset : Nat) (reads : List Text) :
    (readParts offset reads).Pairwise fun a b => a.offset + a.text.length ≤ b.offset := by
  induction reads generalizing offset with
  | nil => exact .nil
  | cons line reads ih =>
    rw [readParts, List.pairwise_append]
    refine ⟨(pairwise_parts offset line).imp Nat.le_of_lt, ?_, fun a ha b hb => ?_⟩
    · split
      · exact .nil
      · exact ih _
    · split at hb
      case isTrue => cases hb
      case isFalse =>
        obtain ⟨x, y, hline, ha, -⟩ := mem_parts ha
        obtain ⟨x', y', -, hb, -⟩ := mem_readParts hb
        rw [hb, ha, hline]
        simp only [List.length_append]
        omega

/-- A part does not go on behind the end of its read. -/
theorem end_le_or_le_of_mem_readParts {line : Text}
    (h : piece ∈ readParts offset (line :: reads)) :
    piece.offset + piece.text.length ≤ offset + line.length ∨
      offset + line.length ≤ piece.offset := by
  rw [readParts, List.mem_append] at h
  rcases h with h | h
  · obtain ⟨x, y, hline, hoffset, -⟩ := mem_parts h
    left
    rw [hoffset, hline]
    simp only [List.length_append]
    omega
  · split at h
    case isTrue => cases h
    case isFalse =>
      obtain ⟨x, y, -, hoffset, -⟩ := mem_readParts h
      right
      omega

theorem le_of_mem_placed (h : p ∈ placed offset lines) : offset ≤ p.1 := by
  induction lines generalizing offset with
  | nil => cases h
  | cons l lines ih =>
    rcases List.mem_cons.mp h with rfl | h
    · exact Nat.le_refl _
    · have hle := ih h
      omega

/-- Each line ends in front of the next one. -/
theorem pairwise_placed (offset : Nat) (lines : List Line) :
    (placed offset lines).Pairwise fun a b => a.1 + a.2.text.length < b.1 := by
  induction lines generalizing offset with
  | nil => exact .nil
  | cons l lines ih =>
    rw [placed, List.pairwise_cons]
    refine ⟨fun b hb => ?_, ih _⟩
    have hle := le_of_mem_placed hb
    dsimp only
    omega

/-- What has no newline stands in one line. -/
theorem exists_placed (h : render lines = x ++ (t ++ y)) (hne : t ≠ []) (hnot : '\n' ∉ t)
    (offset : Nat) : ∃ p ∈ placed offset lines, p.1 ≤ offset + x.length ∧
      offset + x.length + t.length ≤ p.1 + p.2.text.length := by
  induction lines generalizing x offset with
  | nil =>
    have hlen := congrArg List.length h
    have hpos := List.length_pos_iff.mpr hne
    simp [render] at hlen
    omega
  | cons l lines ih =>
    have hrender : render (l :: lines) = l.text ++ '\n' :: render lines := by simp [render]
    rw [hrender] at h
    have hnewline {a b : Text} (h : '\n' :: a = t ++ b) : False := by
      obtain ⟨c, cs, rfl⟩ := List.exists_cons_of_ne_nil hne
      exact hnot ((List.cons.inj h).1 ▸ List.mem_cons_self)
    rcases List.append_eq_append_iff.mp h with ⟨z, hx, hz⟩ | ⟨z, hl, hz⟩
    · -- behind the first line
      cases z with
      | nil => exact (hnewline hz).elim
      | cons c z =>
        obtain ⟨p, hp, hle, hend⟩ := ih (List.cons.inj hz).2 (offset + l.text.length + 1)
        have hlen : x.length = l.text.length + (z.length + 1) := by simp [hx]
        exact ⟨p, List.mem_cons_of_mem _ hp, by omega, by omega⟩
    · -- in the first line, up to its end
      have hlen : l.text.length = x.length + z.length := by simp [hl]
      refine ⟨(offset, l), List.mem_cons_self, Nat.le_add_right _ _, ?_⟩
      dsimp only
      rcases List.append_eq_append_iff.mp hz with ⟨w, hzw, -⟩ | ⟨w, ht, hw⟩
      · have hlen' : z.length = t.length + w.length := by simp [hzw]
        omega
      · cases w with
        | nil =>
          rw [List.append_nil] at ht
          rw [ht]
          omega
        | cons c w =>
          have hc : '\n' ∈ t := by simp [ht, ← (List.cons.inj hw).1]
          exact absurd hc hnot

theorem hits_text (faddr : Nat) (l : Line) : hits faddr l.text = decide (Wanted faddr l) := by
  rw [hits, sscanfRange_text, Bool.eq_iff_iff, decide_eq_true_eq]
  simp [Wanted, Line.Contains]

theorem ne_nil_of_hits (h : hits faddr t = true) : t ≠ [] := by
  rintro rfl
  cases h

theorem mem_hits : piece ∈ ((readParts 0 reads).filter fun piece => hits faddr piece.text) ↔
    piece ∈ readParts 0 reads ∧ hits faddr piece.text = true := List.mem_filter

theorem ordered_hits (faddr : Nat) (reads : List Text) :
    Ordered Piece.offset ((readParts 0 reads).filter fun piece => hits faddr piece.text) := by
  refine ((pairwise_readParts 0 reads).filter _).imp_of_mem fun {a b} ha _ hle => ?_
  have hpos := List.length_pos_iff.mpr (ne_nil_of_hits (mem_hits.mp ha).2)
  omega

theorem mem_wantedPieces : piece ∈ wantedPieces faddr lines ↔
    ∃ p ∈ placed 0 lines, Wanted faddr p.2 ∧ ⟨p.1, p.2.text⟩ = piece := by
  simp [wantedPieces, and_assoc]

theorem ordered_wantedPieces (faddr : Nat) (lines : List Line) :
    Ordered Piece.offset (wantedPieces faddr lines) := by
  rw [Ordered, wantedPieces, List.pairwise_map]
  refine ((pairwise_placed 0 lines).filter _).imp fun {a b} hlt => ?_
  dsimp only
  omega

/-- Two parts that overlap are the same. -/
theorem eq_of_overlap {a b : Piece} (ha : a ∈ readParts 0 reads) (hb : b ∈ readParts 0 reads)
    (hab : a.offset < b.offset + b.text.length) (hba : b.offset < a.offset + a.text.length) :
    a = b := by
  rcases eq_or_of_pairwise (pairwise_readParts 0 reads) ha hb with heq | hlt | hlt
  · exact heq
  all_goals omega

/-- **Of the maps the same lines are collected** as of the reads when each line that counts is
read as it is or not taken for one. -/
theorem take_hits_iff (faddr : Nat) (hreads : reads.flatten = render lines) :
    ((readParts 0 reads).filter fun piece => hits faddr piece.text).take 6 =
        (wantedPieces faddr lines).take 6 ↔
      (∀ p ∈ placed 0 lines,
        (wantedPieces faddr lines).countP (fun piece => piece.offset < p.1) < 6 →
        Wanted faddr p.2 → ⟨p.1, p.2.text⟩ ∈ readParts 0 reads) ∧
      ∀ p ∈ placed 0 lines,
        (wantedPieces faddr lines).countP (fun piece => piece.offset < p.1) < 6 →
        ¬ Wanted faddr p.2 → ∀ piece ∈ readParts 0 reads, p.1 ≤ piece.offset →
          piece.offset + piece.text.length ≤ p.1 + p.2.text.length →
          hits faddr piece.text = false := by
  rw [take_eq_take_iff (ordered_hits faddr reads) (ordered_wantedPieces faddr lines)]
  constructor
  · intro h
    constructor
    · intro p hp hcount hwanted
      have hmem : ⟨p.1, p.2.text⟩ ∈ wantedPieces faddr lines :=
        mem_wantedPieces.mpr ⟨p, hp, hwanted, rfl⟩
      exact (mem_hits.mp ((h _ hcount).mpr hmem)).1
    · intro p hp hcount hwanted piece hpiece hle hend
      by_contra hhits
      -- a line that is wanted is another one, in front of it or behind
      have hother : ∀ q ∈ placed 0 lines, Wanted faddr q.2 →
          q.1 + q.2.text.length < p.1 ∨ p.1 + p.2.text.length < q.1 := by
        intro q hq hq'
        rcases eq_or_of_pairwise (pairwise_placed 0 lines) hq hp with rfl | hlt
        · exact absurd hq' hwanted
        · exact hlt
      have hcount' : (wantedPieces faddr lines).countP (fun b => b.offset < piece.offset) ≤
          (wantedPieces faddr lines).countP (fun b => b.offset < p.1) := by
        refine List.countP_mono_left fun b hb hlt => ?_
        obtain ⟨q, hq, hq', rfl⟩ := mem_wantedPieces.mp hb
        have hq := hother q hq hq'
        simp only [decide_eq_true_eq] at hlt ⊢
        omega
      have hmem := (h piece (by omega)).mp (mem_hits.mpr ⟨hpiece, by simpa using hhits⟩)
      obtain ⟨q, hq, hq', rfl⟩ := mem_wantedPieces.mp hmem
      have hq := hother q hq hq'
      dsimp only at hle hend
      omega
  · rintro ⟨hwhole, hapart⟩ piece hcount
    constructor
    · intro hmem
      obtain ⟨hread, hhits⟩ := mem_hits.mp hmem
      have hne := ne_nil_of_hits hhits
      obtain ⟨x, y, hflatten, hoffset, hnot⟩ := mem_readParts hread
      obtain ⟨p, hp, hle, hend⟩ := exists_placed (hreads ▸ hflatten) hne hnot 0
      rw [← hoffset] at hle hend
      have hpos := List.length_pos_iff.mpr hne
      have hcount' : (wantedPieces faddr lines).countP (fun b => b.offset < p.1) ≤
          (wantedPieces faddr lines).countP (fun b => b.offset < piece.offset) := by
        refine List.countP_mono_left fun b _ hlt => ?_
        simp only [decide_eq_true_eq] at hlt ⊢
        omega
      by_cases hwanted : Wanted faddr p.2
      · have hline := hwhole p hp (by omega) hwanted
        have heq : piece = ⟨p.1, p.2.text⟩ := by
          refine eq_of_overlap hread hline ?_ ?_
          all_goals
            dsimp only
            omega
        exact mem_wantedPieces.mpr ⟨p, hp, hwanted, heq.symm⟩
      · rw [hapart p hp (by omega) hwanted piece hread hle hend] at hhits
        cases hhits
    · intro hmem
      obtain ⟨p, hp, hwanted, rfl⟩ := mem_wantedPieces.mp hmem
      exact mem_hits.mpr ⟨hwhole p hp hcount hwanted, by simpa [hits_text] using hwanted⟩

end Place

/-- The scan puts the first six parts that hit into `mp`. -/
theorem pieces_mapsScan (faddr : Nat) (reads : List Text) :
    (mapsScan faddr reads).pieces =
      ((readParts 0 reads).filter fun piece => hits faddr piece.text).take 6 := by
  rw [mapsScan, scanReads_eq, foldl_collect, foldl_add_pieces]
  rfl

theorem mp_mapsScan (faddr : Nat) (reads : List Text) :
    (mapsScan faddr reads).mp = ((mapsScan faddr reads).pieces.flatMap
      fun piece => piece.text ++ ['|']).take 1023 := by
  rw [pieces_mapsScan, mapsScan, scanReads_eq, foldl_collect, foldl_add_mp _ _ (by decide)]
  rfl

/-- The scan finds the first six lines exactly when each line that counts is a part of a read as it
is, or nothing of it is taken for a line that is looked for, and the buffer has room for the six. -/
theorem mapsScan_collects_iff (faddr : Nat) {lines : List Line} (reads : Reads lines) :
    Collects faddr lines reads.results ↔ ReadWhole faddr lines reads.results := by
  have hpieces := pieces_mapsScan faddr reads.results
  have hmp := mp_mapsScan faddr reads.results
  have htake := take_hits_iff faddr reads.flatten_eq
  constructor
  · rintro ⟨hcollected, htext⟩
    obtain ⟨hwhole, hapart⟩ := htake.mp (hpieces.symm.trans hcollected)
    refine ⟨hwhole, hapart, ?_⟩
    rw [hmp, hcollected] at htext
    have hlen := congrArg List.length htext
    rw [List.length_take] at hlen
    omega
  · rintro ⟨hwhole, hapart, hfits⟩
    have hcollected := hpieces.trans (htake.mpr ⟨hwhole, hapart⟩)
    refine ⟨hcollected, ?_⟩
    rw [hmp, hcollected, List.take_of_length_le (by omega)]

theorem length_render_devhostMaps : (render devhostMaps).length = 609 := by
  rw [render, List.length_flatMap]
  decide

/-- The maps come with two reads, the first of which fills the buffer. -/
def twoReads : Reads devhostMaps where
  results := [(render devhostMaps).take 511, (render devhostMaps).drop 511]
  flatten_eq := by
    rw [List.flatten_cons, List.flatten_singleton, List.take_append_drop]
  size := by
    have hlen := length_render_devhostMaps
    have htake : ((render devhostMaps).take 511).length = 511 := by
      rw [List.length_take, hlen]
      rfl
    have hdrop : ((render devhostMaps).drop 511).length = 98 := by rw [List.length_drop, hlen]
    intro r hr
    rw [List.mem_pair] at hr
    have hlength : r.length = 511 ∨ r.length = 98 := by
      rcases hr with hr | hr
      · exact .inl ((congrArg List.length hr).trans htake)
      · exact .inr ((congrArg List.length hr).trans hdrop)
    rw [← List.length_pos_iff]
    omega

set_option maxRecDepth 2000 in
/-- Where the last line stands. -/
theorem wantedPieces_devhostMaps : wantedPieces 0x7fb2cd9010 devhostMaps =
    [⟨503, (devhostMaps.getLast (by decide)).text⟩] := by
  decide

/-- The last line is read in two halves, the second of which is taken for a line. -/
theorem half_line_collected :
    ¬ Collects 0x7fb2cd9010 devhostMaps twoReads.results := by
  intro h
  have hpieces := (pieces_mapsScan 0x7fb2cd9010 twoReads.results).symm.trans h.pieces
  rw [wantedPieces_devhostMaps] at hpieces
  have hmem : ⟨503, (devhostMaps.getLast (by decide)).text⟩ ∈
      (readParts 0 twoReads.results).filter fun piece => hits 0x7fb2cd9010 piece.text := by
    refine List.mem_of_mem_take (i := 6) ?_
    rw [hpieces]
    exact List.mem_cons_self
  have hend := end_le_or_le_of_mem_readParts (mem_hits.mp hmem).1
  have hline : (devhostMaps.getLast (by decide)).text.length = 105 := by decide
  have hread : ((render devhostMaps).take 511).length = 511 := by
    rw [List.length_take, length_render_devhostMaps]
    rfl
  dsimp only at hend
  omega

end DumpWchan
