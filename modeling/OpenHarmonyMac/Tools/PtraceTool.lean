import OpenHarmonyMac.Tools.Kmsg

/-!
# The frames of the composer

`ptrace_tool` looks up where the return addresses of the composer's frames lie. It has read the
maps into a buffer, and cuts a line off with a NUL while it looks at it. What it finds goes to the
kernel log, through a buffer of 512 bytes.

* `lookup` — the loop over the lines for one address, with the buffer as it is left
* `kmsg` — what the log gets of a message
* `frameLoop` — the loop over the addresses
* `frameLoop_symbolises_iff` — when each address gets the path of its line
-/

namespace PtraceTool

open Infra Maps

open Kmsg (formatHex vsnprintf)

def nul : Char := Char.ofNat 0

/-- What a `PTLIB` message says. -/
structure Report where
  index : Nat
  ret : Nat
  path : Text

/-- The message as it is formatted. -/
def Report.text (r : Report) : Text :=
  "PTLIB: ret[".toList ++ formatNat r.index ++ "]=".toList ++ formatHex r.ret ++ " -> ".toList ++
    r.path

/-- What `write` takes from the buffer: the text that is stored, and so many bytes behind it. -/
structure Logged where
  stored : Text
  beyond : Nat
  deriving DecidableEq, Repr

/-- `kmsg`, where the log can be opened and `vsnprintf` does not fail: as many bytes are written
as the whole message has. -/
def kmsg (message : Text) : Logged where
  stored := (vsnprintf 512 false message).2
  beyond := (vsnprintf 512 false message).1.toNat - (vsnprintf 512 false message).2.length

/-- `strstr(p, "/")`, or `"?"` -/
def pathOf (p : Text) : Text :=
  match p.dropWhile (· != '/') with
  | [] => ['?']
  | path => path

def inLine (c : Char) : Bool := c != '\n' && c != nul

/-- The inner loop from `p` on: what is reported of the address, and what the buffer then holds.
The NUL behind the text is not part of it. -/
def lookup (ret : Nat) (p : Text) : Option Text × Text :=
  if p.head? = none ∨ p.head? = some nul then (none, p)
  else
    match _h : p.dropWhile inLine with
    | '\n' :: behind =>
      -- the `break` leaves the NUL where the newline was
      if inRange ret (p.takeWhile inLine) then
        (some (pathOf (p.takeWhile inLine)), p.takeWhile inLine ++ nul :: behind)
      else ((lookup ret behind).1, p.takeWhile inLine ++ '\n' :: (lookup ret behind).2)
    | _ =>
      if inRange ret (p.takeWhile inLine) then (some (pathOf (p.takeWhile inLine)), p)
      else (none, p)
termination_by p.length
decreasing_by
  all_goals exact length_lt_of_dropWhile _h

/-- The loop over the return addresses, from number `i` on. -/
def frameLoop (all : Text) : Nat → List Nat → List Logged
  | _, [] => []
  | i, ret :: rets =>
    ((lookup ret all).1.map fun path => kmsg (Report.text ⟨i, ret, path⟩)).toList ++
      frameLoop (lookup ret all).2 (i + 1) rets

/-! ## What should be reported -/

/-- The path of the line, or a question mark -/
def path (l : Line) : Text := if l.name.head? = some '/' then l.name else ['?']

/-- The line of an address: the only one, as ranges of a process are disjoint. -/
def lineOf (lines : List Line) (ret : Nat) : Option Nat :=
  lines.findIdx? fun l => l.Contains ret

/-- What an address and its number get: the whole message, and nothing else. -/
def expected (lines : List Line) (p : Nat × Nat) : Option Logged :=
  (lines.find? fun l => l.Contains p.1).map fun l => ⟨Report.text ⟨p.2, p.1, path l⟩, 0⟩

/-- Each address gets what its line says, whatever is in front of it. -/
def Symbolises (lines : List Line) (rets : List Nat) : Prop :=
  frameLoop (render lines) 0 rets = rets.zipIdx.filterMap (expected lines)

/-- No address lies in a line behind that of an address in front of it, a name with a slash is a
path, and the path is short enough for the message. The addresses are numbered from `i` on. -/
structure Falling (lines : List Line) (i : Nat) (rets : List Nat) : Prop where
  lines_fall : (rets.filterMap (lineOf lines)).Pairwise fun a b => b ≤ a
  names : ∀ ret ∈ rets, ∀ l, (lines.find? fun l => l.Contains ret) = some l →
    '/' ∈ l.name → l.name.head? = some '/'
  short : ∀ p ∈ rets.zipIdx i, ∀ l, (lines.find? fun l => l.Contains p.1) = some l →
    (formatNat p.2).length + (formatHex p.1).length + (path l).length ≤ 494

/-! ## A message -/

section Message

variable {r r' : Report}

theorem kmsg_eq_iff (message text : Text) :
    kmsg message = ⟨text, 0⟩ ↔ message.length ≤ 511 ∧ message = text := by
  simp only [kmsg, vsnprintf, Bool.false_eq_true, if_false, Logged.mk.injEq, List.length_take,
    Int.toNat_natCast]
  constructor
  · rintro ⟨rfl, hbeyond⟩
    have hlen : message.length ≤ 511 := by omega
    exact ⟨hlen, (List.take_of_length_le hlen).symm⟩
  · rintro ⟨hlen, rfl⟩
    exact ⟨List.take_of_length_le hlen, by omega⟩

theorem Report.length_text (r : Report) : r.text.length =
    (formatNat r.index).length + (formatHex r.ret).length + r.path.length + 17 := by
  unfold Report.text
  simp +arith

/-- A message says which address it is about. -/
theorem Report.index_eq_of_text_eq (h : r.text = r'.text) : r.index = r'.index := by
  have hread (r : Report) : readNat (r.text.drop 11) = r.index := by
    have hdrop : r.text.drop 11 = formatNat r.index ++
        (']' :: '=' :: (formatHex r.ret ++ (" -> ".toList ++ r.path))) := by
      unfold Report.text
      simp
    rw [hdrop]
    exact readNat_formatNat _ (by simp [StopsDigits])
  rw [← hread r, h, hread r']

/-- The log gets the whole message about another path only where it is the same and short. -/
theorem kmsg_text_eq_iff (i ret : Nat) (found path : Text) :
    kmsg (Report.text ⟨i, ret, found⟩) = ⟨Report.text ⟨i, ret, path⟩, 0⟩ ↔
      found = path ∧ (formatNat i).length + (formatHex ret).length + path.length ≤ 494 := by
  rw [kmsg_eq_iff, Report.length_text]
  dsimp only
  constructor
  · rintro ⟨hlen, heq⟩
    obtain rfl : found = path := List.append_cancel_left heq
    exact ⟨rfl, by omega⟩
  · rintro ⟨rfl, hlen⟩
    exact ⟨by omega, rfl⟩

end Message

/-! ## A line -/

section Line

theorem inLine_of_mem (l : Line) : ∀ c ∈ l.text, inLine c = true := by
  intro c hc
  obtain ⟨hnewline, hnul⟩ := l.text_ne c hc
  simp [inLine, hnewline, nul, hnul]

theorem head_text (l : Line) (behind : Text) :
    ¬ ((l.text ++ behind).head? = none ∨ (l.text ++ behind).head? = some nul) := by
  obtain ⟨c, cs, hdigits, hc⟩ := l.start.exists_cons
  rw [Line.text, hdigits]
  simp only [List.cons_append, List.head?_cons, reduceCtorEq, Option.some.injEq, false_or]
  rintro rfl
  exact absurd hc (by decide)

theorem takeWhile_text (l : Line) (behind : Text)
    (hbehind : ∀ c ∈ behind.head?, inLine c = false) :
    (l.text ++ behind).takeWhile inLine = l.text ∧
      (l.text ++ behind).dropWhile inLine = behind := by
  rw [List.takeWhile_append_of_pos (inLine_of_mem l),
    List.dropWhile_append_of_pos (inLine_of_mem l)]
  cases behind with
  | nil => simp
  | cons c cs => simp [hbehind c rfl]

/-- A line that the newline still ends. -/
theorem lookup_newline (l : Line) (ret : Nat) (behind : Text) :
    lookup ret (l.text ++ '\n' :: behind) =
      if l.Contains ret then (some (pathOf l.text), l.text ++ nul :: behind)
      else ((lookup ret behind).1, l.text ++ '\n' :: (lookup ret behind).2) := by
  obtain ⟨htake, hdrop⟩ := takeWhile_text l ('\n' :: behind) (by simp [inLine])
  rw [lookup, if_neg (head_text l _)]
  split
  · next behind' heq =>
    cases hdrop.symm.trans heq
    simp only [htake, inRange_text, decide_eq_true_eq]
  · next hne => exact absurd hdrop (hne behind)

/-- A line that was cut off. -/
theorem lookup_nul (l : Line) (ret : Nat) (behind : Text) :
    lookup ret (l.text ++ nul :: behind) =
      (if l.Contains ret then some (pathOf l.text) else none, l.text ++ nul :: behind) := by
  obtain ⟨htake, hdrop⟩ := takeWhile_text l (nul :: behind) (by simp [inLine])
  rw [lookup, if_neg (head_text l _)]
  split
  · next behind' heq => cases (List.cons.inj (hdrop.symm.trans heq)).1
  · simp only [htake, inRange_text, decide_eq_true_eq]
    split <;> rfl

end Line

/-! ## The buffer -/

/-- These lines can be seen in the buffer, up to the NUL. -/
inductive Shows : Text → List Line → Prop
  | nil : Shows [] []
  | last (l : Line) (behind : Text) : Shows (l.text ++ nul :: behind) [l]
  | cons (l : Line) {all : Text} {lines : List Line} (h : Shows all lines) :
      Shows (l.text ++ '\n' :: all) (l :: lines)

section Buffer

variable {all : Text} {lines seen : List Line} {ret v : Nat}

theorem shows_render (lines : List Line) : Shows (render lines) lines := by
  induction lines with
  | nil => exact .nil
  | cons l lines ih => simpa [render] using ih.cons l

/-- The lines up to the first one with the address. -/
def upTo (ret : Nat) : List Line → List Line
  | [] => []
  | l :: lines => if l.Contains ret then [l] else l :: upTo ret lines

/-- An address is found in the lines that can be seen, and those behind its line cannot any more. -/
theorem lookup_spec (h : Shows all seen) (ret : Nat) :
    (lookup ret all).1 = ((seen.find? fun l => l.Contains ret).map fun l => pathOf l.text) ∧
      Shows (lookup ret all).2 (upTo ret seen) := by
  induction h with
  | nil =>
    rw [lookup, if_pos (.inl rfl)]
    exact ⟨rfl, .nil⟩
  | last l behind =>
    rw [lookup_nul, upTo]
    by_cases hl : l.Contains ret
    · simpa [hl] using Shows.last l behind
    · simpa [hl, upTo] using Shows.last l behind
  | @cons l all lines h ih =>
    rw [lookup_newline, upTo]
    by_cases hl : l.Contains ret
    · simpa [hl] using Shows.last l all
    · simpa [hl, ih.1] using ih.2.cons l

theorem lineOf_cons_of_not {l : Line} (hl : ¬ l.Contains ret) :
    lineOf (l :: lines) ret = (lineOf lines ret).map (· + 1) := by
  rw [lineOf, List.findIdx?_cons, if_neg (by simpa using hl)]
  rfl

theorem lineOf_cons_of_contains {l : Line} (hl : l.Contains ret) :
    lineOf (l :: lines) ret = some 0 := by
  rw [lineOf, List.findIdx?_cons, if_pos (by simpa using hl)]

/-- The line of an address is among the first `v` ones. -/
theorem take_of_lt {a : Nat} (hret : lineOf lines ret = some a) (ha : a < v) :
    ∃ l, (lines.find? fun l => l.Contains ret) = some l ∧
      ((lines.take v).find? fun l => l.Contains ret) = some l ∧
      upTo ret (lines.take v) = lines.take (a + 1) := by
  induction lines generalizing a v with
  | nil => cases hret
  | cons l lines ih =>
    obtain ⟨v, rfl⟩ := Nat.exists_eq_add_one_of_ne_zero (Nat.ne_zero_of_lt ha)
    rw [List.take_succ_cons, upTo]
    by_cases hl : l.Contains ret
    · rw [lineOf_cons_of_contains hl] at hret
      cases hret
      exact ⟨l, by simp [hl], by simp [hl], by simp [hl]⟩
    · rw [lineOf_cons_of_not hl] at hret
      obtain ⟨b, hb, rfl⟩ := Option.map_eq_some_iff.mp hret
      obtain ⟨l', hfind, htake, hupTo⟩ := ih hb (Nat.lt_of_succ_lt_succ ha)
      exact ⟨l', by simpa [hl] using hfind, by simpa [hl] using htake, by simp [hl, hupTo]⟩

/-- The line of an address, if it has one, is behind the first `v` ones. -/
theorem take_of_le (hret : ∀ a, lineOf lines ret = some a → v ≤ a) :
    ((lines.take v).find? fun l => l.Contains ret) = none ∧
      upTo ret (lines.take v) = lines.take v := by
  induction lines generalizing v with
  | nil => simp [upTo]
  | cons l lines ih =>
    cases v with
    | zero => simp [upTo]
    | succ v =>
      have hl : ¬ l.Contains ret := by
        intro hl
        exact absurd (hret 0 (lineOf_cons_of_contains hl)) (Nat.not_succ_le_zero v)
      obtain ⟨hfind, hupTo⟩ := ih (v := v) fun a ha => by
        have hle := hret (a + 1) (by rw [lineOf_cons_of_not hl, ha]; rfl)
        omega
      exact ⟨by simpa [hl] using hfind, by simp [upTo, hl, hupTo]⟩

end Buffer

/-! ## The loop over the addresses -/

section Frames

variable {all : Text} {lines : List Line} {rets : List Nat} {ret i v : Nat}

/-- What is reported of a line is its path, if a name with a slash is one. -/
theorem pathOf_text_iff (l : Line) :
    pathOf l.text = path l ↔ ('/' ∈ l.name → l.name.head? = some '/') := by
  have hfront : ∀ c ∈ l.start.digits ++ '-' :: (l.stop.digits ++ l.columns),
      (c != '/') = true := by
    have hhex : ∀ a : Address, ∀ c ∈ a.digits, c ≠ '/' := by
      rintro a c hc rfl
      exact absurd (a.isHex_of_mem _ hc) (by decide)
    intro c hc
    rw [bne_iff_ne]
    simp only [List.mem_append, List.mem_cons] at hc
    rcases hc with hc | rfl | hc | hc
    · exact hhex _ c hc
    · decide
    · exact hhex _ c hc
    · exact fun h => l.no_slash (h ▸ hc)
  have htext : l.text = (l.start.digits ++ '-' :: (l.stop.digits ++ l.columns)) ++ l.name := by
    simp [Line.text]
  rw [pathOf, htext, List.dropWhile_append_of_pos hfront, path]
  by_cases hmem : '/' ∈ l.name
  · by_cases hhead : l.name.head? = some '/'
    · obtain ⟨cs, hname⟩ := List.head?_eq_some_iff.mp hhead
      simp [hname]
    · have hdrop : (l.name.dropWhile (· != '/')).head? = some '/' := by
        obtain ⟨front, behind, hname, hfront⟩ := List.eq_append_cons_of_mem hmem
        rw [hname, dropWhile_append_sep hfront]
        rfl
      obtain ⟨cs, hcs⟩ := List.head?_eq_some_iff.mp hdrop
      rw [hcs, if_neg hhead]
      exact iff_of_false (by simp) fun h => hhead (h hmem)
  · have hdrop : l.name.dropWhile (· != '/') = [] := dropWhile_of_not_mem hmem
    have hhead : l.name.head? ≠ some '/' := fun h => hmem (List.mem_of_head? h)
    rw [hdrop, if_neg hhead]
    exact iff_of_true rfl fun h => absurd h hmem

/-- The log gets messages about the addresses, in their order. -/
theorem exists_of_mem_frameLoop {entry : Logged} (h : entry ∈ frameLoop all i rets) :
    ∃ r : Report, i ≤ r.index ∧ entry = kmsg r.text := by
  induction rets generalizing all i with
  | nil => cases h
  | cons ret rets ih =>
    rw [frameLoop, List.mem_append] at h
    rcases h with h | h
    · obtain ⟨path, -, rfl⟩ := Option.map_eq_some_iff.mp (Option.mem_toList.mp h)
      exact ⟨⟨i, ret, path⟩, le_rfl, rfl⟩
    · obtain ⟨r, hle, rfl⟩ := ih h
      exact ⟨r, Nat.le_of_succ_le hle, rfl⟩

/-- No message about an earlier address comes later. -/
theorem text_not_mem_frameLoop (r : Report) (hr : r.index < i) :
    ⟨r.text, 0⟩ ∉ frameLoop all i rets := by
  intro h
  obtain ⟨r', hle, heq⟩ := exists_of_mem_frameLoop h
  have htext := ((kmsg_eq_iff _ _).mp heq.symm).2
  rw [Report.index_eq_of_text_eq htext] at hle
  omega

theorem falling_cons_of_none (hret : lineOf lines ret = none) :
    Falling lines i (ret :: rets) ↔ Falling lines (i + 1) rets := by
  have hfind : (lines.find? fun l => l.Contains ret) = none := by
    rw [List.find?_eq_none]
    intro l hl
    simpa using List.findIdx?_eq_none_iff.mp hret l hl
  constructor
  · rintro ⟨hfall, hnames, hshort⟩
    rw [List.filterMap_cons_none hret] at hfall
    rw [List.zipIdx_cons] at hshort
    exact ⟨hfall, fun r hr => hnames r (List.mem_cons_of_mem _ hr),
      fun p hp => hshort p (List.mem_cons_of_mem _ hp)⟩
  · rintro ⟨hfall, hnames, hshort⟩
    refine ⟨by rwa [List.filterMap_cons_none hret], List.forall_mem_cons.mpr ⟨?_, hnames⟩, ?_⟩
    · intro l hl
      rw [hfind] at hl
      cases hl
    · rw [List.zipIdx_cons]
      refine List.forall_mem_cons.mpr ⟨fun l hl => ?_, hshort⟩
      rw [hfind] at hl
      cases hl

theorem falling_cons_of_some {a : Nat} {l : Line} (hret : lineOf lines ret = some a)
    (hl : (lines.find? fun l => l.Contains ret) = some l) :
    Falling lines i (ret :: rets) ↔ (('/' ∈ l.name → l.name.head? = some '/') ∧
      (formatNat i).length + (formatHex ret).length + (path l).length ≤ 494) ∧
      (∀ b ∈ rets.filterMap (lineOf lines), b ≤ a) ∧ Falling lines (i + 1) rets := by
  constructor
  · rintro ⟨hfall, hnames, hshort⟩
    rw [List.filterMap_cons_some hret, List.pairwise_cons] at hfall
    rw [List.zipIdx_cons] at hshort
    obtain ⟨hl', hnames⟩ := List.forall_mem_cons.mp hnames
    obtain ⟨hlen, hshort⟩ := List.forall_mem_cons.mp hshort
    exact ⟨⟨hl' l hl, hlen l hl⟩, hfall.1, hfall.2, hnames, hshort⟩
  · rintro ⟨⟨hname, hlen⟩, hle, hfall, hnames, hshort⟩
    have heq : ∀ l', (lines.find? fun l => l.Contains ret) = some l' → l' = l := by
      intro l' hl'
      exact Option.some.inj (hl'.symm.trans hl)
    refine ⟨?_, List.forall_mem_cons.mpr ⟨fun l' hl' => ?_, hnames⟩, ?_⟩
    · rw [List.filterMap_cons_some hret, List.pairwise_cons]
      exact ⟨hle, hfall⟩
    · rw [heq l' hl']
      exact hname
    · rw [List.zipIdx_cons]
      refine List.forall_mem_cons.mpr ⟨fun l' hl' => ?_, hshort⟩
      rw [heq l' hl']
      exact hlen

/-- What is logged from a buffer with `v` lines. -/
theorem frameLoop_eq_iff (h : Shows all (lines.take v)) :
    frameLoop all i rets = (rets.zipIdx i).filterMap (expected lines) ↔
      (∀ a ∈ rets.filterMap (lineOf lines), a < v) ∧ Falling lines i rets := by
  induction rets generalizing all i v with
  | nil => simpa [frameLoop] using ⟨List.Pairwise.nil, by simp, by simp⟩
  | cons ret rets ih =>
    obtain ⟨hpath, hshows⟩ := lookup_spec h ret
    rw [frameLoop, List.zipIdx_cons, hpath]
    by_cases hseen : ∃ a, lineOf lines ret = some a ∧ a < v
    · obtain ⟨a, hret, ha⟩ := hseen
      obtain ⟨l, hl, hl', hupTo⟩ := take_of_lt hret ha
      rw [hupTo] at hshows
      have hexpected : expected lines (ret, i) = some ⟨Report.text ⟨i, ret, path l⟩, 0⟩ := by
        rw [expected, hl]
        rfl
      rw [List.filterMap_cons_some hexpected, hl', List.filterMap_cons_some hret,
        List.forall_mem_cons, falling_cons_of_some hret hl, ← pathOf_text_iff]
      simp only [Option.map_some, Option.toList_some, List.singleton_append, List.cons.injEq,
        kmsg_text_eq_iff, ih hshows]
      constructor
      · rintro ⟨hmessage, hle, hfall⟩
        exact ⟨⟨ha, fun b hb => Nat.lt_of_lt_of_le (hle b hb) ha⟩, hmessage,
          fun b hb => Nat.le_of_lt_succ (hle b hb), hfall⟩
      · rintro ⟨-, hmessage, hle, hfall⟩
        exact ⟨hmessage, fun b hb => Nat.lt_succ_of_le (hle b hb), hfall⟩
    · have hle : ∀ a, lineOf lines ret = some a → v ≤ a := fun a ha =>
        Nat.le_of_not_lt fun hlt => hseen ⟨a, ha, hlt⟩
      obtain ⟨hfind, hupTo⟩ := take_of_le hle
      rw [hupTo] at hshows
      rw [hfind, Option.map_none, Option.map_none, Option.toList_none, List.nil_append]
      cases hret : lineOf lines ret with
      | none =>
        have hexpected : expected lines (ret, i) = none := by
          rw [expected, Option.map_eq_none_iff, List.find?_eq_none]
          intro l hl
          simpa using List.findIdx?_eq_none_iff.mp hret l hl
        rw [List.filterMap_cons_none hexpected, List.filterMap_cons_none hret,
          falling_cons_of_none hret]
        exact ih hshows
      | some a =>
        -- the address has a line, but no message
        obtain ⟨l, hl, -⟩ := take_of_lt hret (Nat.lt_succ_self a)
        have hexpected : expected lines (ret, i) = some ⟨Report.text ⟨i, ret, path l⟩, 0⟩ := by
          rw [expected, hl]
          rfl
        rw [List.filterMap_cons_some hexpected, List.filterMap_cons_some hret]
        refine iff_of_false (fun heq => ?_) fun h => ?_
        · exact text_not_mem_frameLoop ⟨i, ret, path l⟩ (Nat.lt_succ_self i)
            (heq ▸ List.mem_cons_self)
        · have hlt := h.1 a List.mem_cons_self
          have hge := hle a hret
          omega

end Frames

/-- Each address gets the path of its line exactly when no address lies in a line behind that of an
earlier one, a name that holds a slash is a path, and each message fits into the buffer. -/
theorem frameLoop_symbolises_iff (lines : List Line) (rets : List Nat) :
    Symbolises lines rets ↔ Falling lines 0 rets := by
  have hall : Shows (render lines) (lines.take lines.length) := by
    rw [List.take_length]
    exact shows_render lines
  refine (frameLoop_eq_iff hall).trans (and_iff_right fun a ha => ?_)
  obtain ⟨ret, -, hret⟩ := List.mem_filterMap.mp ha
  exact (List.findIdx?_eq_some_iff_findIdx_eq.mp hret).1

/-- An address in the library is not found behind one in the file of the host. -/
theorem second_line_lost : ¬ Symbolises devhostMaps [0x5579a02f30, 0x7fb2c60a4c] := by
  intro h
  have hfalling := ((frameLoop_eq_iff (v := 6) (shows_render devhostMaps)).mp h).2
  have hlines : [0x5579a02f30, 0x7fb2c60a4c].filterMap (lineOf devhostMaps) = [1, 4] := by decide
  have hfall := hfalling.lines_fall
  rw [hlines, List.pairwise_cons] at hfall
  exact absurd (hfall.1 4 List.mem_cons_self) (by decide)

end PtraceTool
