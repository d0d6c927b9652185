import Mathlib.Data.List.Nodup
import OpenHarmonyMac.Infra.LinkedChain

/-!
# The list of exit handlers

`atexit.c` keeps the handlers in a doubly linked list. The nodes up to `tail` are in use, those
behind it are free and are taken from the front.

* `ExitList` — the nodes and the variables of the file
* `Represents` — which nodes are in use, and which are free
* `represents_cxaAtexit`, `represents_removeNode` — the list is kept, and `NULL` is not followed
-/

namespace Musl.Atexit

open Infra

variable {φ α δ : Type}

/-- What `__cxa_atexit` is given. -/
structure Handler (φ α δ : Type) where
  func : Option φ
  arg : α
  dso : δ
  deriving DecidableEq, Repr

structure Node (φ α δ : Type) extends Handler φ α δ where
  prev : Option Nat
  next : Option Nat

/-- The variables of the file. The memory of the nodes is numbered in the order in which `grow` gets
hold of it. -/
structure ExitList (φ α δ : Type) where
  len : Nat
  capacity : Nat
  node : Nat → Node φ α δ
  tail : Option Nat
  head : Option Nat

/-- The number of nodes in a block. -/
def count : Nat := 32

namespace ExitList

variable (s : ExitList φ α δ)

def prev (n : Nat) : Option Nat := (s.node n).prev

def next (n : Nat) : Option Nat := (s.node n).next

/-- What is registered in a node. -/
def entry (n : Nat) : Handler φ α δ := (s.node n).toHandler

def setNext (n : Nat) (next : Option Nat) : ExitList φ α δ :=
  { s with node := Function.update s.node n { s.node n with next := next } }

def setPrev (n : Nat) (prev : Option Nat) : ExitList φ α δ :=
  { s with node := Function.update s.node n { s.node n with prev := prev } }

def setEntry (n : Nat) (h : Handler φ α δ) : ExitList φ α δ :=
  { s with node := Function.update s.node n { s.node n with toHandler := h } }

/-- What is registered has no function any more. -/
def clearFunc (n : Nat) : ExitList φ α δ := s.setEntry n { s.entry n with func := none }

/-- `setNext` where the pointer may be `NULL`, and then nothing is done. -/
def setNext? (n : Option Nat) (next : Option Nat) : ExitList φ α δ :=
  match n with
  | some n => s.setNext n next
  | none => s

/-- `setPrev` where the pointer may be `NULL`, and then nothing is done. -/
def setPrev? (n : Option Nat) (prev : Option Nat) : ExitList φ α δ :=
  match n with
  | some n => s.setPrev n prev
  | none => s

/-- The loop of `grow`, and the last node of the block. -/
def linkBlock (nodes : Nat) : ExitList φ α δ :=
  ((List.range (count - 1)).foldl (fun s i => s.setNext (nodes + i) (some (nodes + (i + 1)))) s)
    |>.setNext (nodes + (count - 1)) none

/-- `grow`. There is no list when there is no memory for it. -/
def grow (malloc : Bool) : Option (ExitList φ α δ) :=
  if s.capacity ≠ 0 ∧ malloc = false then none
  else
    let nodes := s.capacity
    let t := (if s.capacity = 0 then { s with head := some nodes } else s).linkBlock nodes
    some { t.setNext? s.tail (some nodes) with capacity := s.capacity + count }

/-- `append_node`. There is no list when it follows `NULL`. -/
def appendNode (h : Handler φ α δ) : Option (ExitList φ α δ) :=
  let newTail := match s.tail with
    | none => s.head
    | some tail => s.next tail
  match newTail with
  | none => none
  | some newTail =>
    let s := (s.setEntry newTail h).setPrev newTail s.tail
    some { s with tail := some newTail, len := s.len + 1 }

/-- `remove_node`, with the node in front of the removed one. There is no list when it follows
`NULL`. -/
def removeNode (node : Nat) : Option (ExitList φ α δ × Option Nat) :=
  let prev := s.prev node
  if s.tail = some node then
    let s := { s with tail := prev, head := if prev = none then some node else s.head }
    some ({ s with len := s.len - 1 }, prev)
  else
    let next := s.next node
    let s := (s.setPrev? next prev).setNext? prev next
    match s.tail with
    | none => none
    | some tail =>
      let tailNext := s.next tail
      let s := (s.setPrev node (some tail)).setNext node tailNext
      let s := (s.setNext tail (some node)).setPrev? tailNext (some node)
      some ({ s with len := s.len - 1 }, prev)

/-- `__cxa_atexit`, with whether it returns 0. -/
def cxaAtexit (malloc : Bool) (h : Handler φ α δ) : Option (ExitList φ α δ × Bool) :=
  if s.len ≥ s.capacity then
    match s.grow malloc with
    | none => some (s, false)
    | some s => (s.appendNode h).map fun s => (s, true)
  else (s.appendNode h).map fun s => (s, true)

/-! ### What the writes leave -/

@[simp] theorem next_setNext (n : Nat) (q : Option Nat) :
    (s.setNext n q).next = Function.update s.next n q :=
  Function.comp_update Node.next s.node n _

@[simp] theorem prev_setNext (n : Nat) (q : Option Nat) : (s.setNext n q).prev = s.prev :=
  (Function.comp_update Node.prev s.node n _).trans (Function.update_eq_self n _)

@[simp] theorem entry_setNext (n : Nat) (q : Option Nat) : (s.setNext n q).entry = s.entry :=
  (Function.comp_update Node.toHandler s.node n _).trans (Function.update_eq_self n _)

@[simp] theorem next_setPrev (n : Nat) (q : Option Nat) : (s.setPrev n q).next = s.next :=
  (Function.comp_update Node.next s.node n _).trans (Function.update_eq_self n _)

@[simp] theorem prev_setPrev (n : Nat) (q : Option Nat) :
    (s.setPrev n q).prev = Function.update s.prev n q :=
  Function.comp_update Node.prev s.node n _

@[simp] theorem entry_setPrev (n : Nat) (q : Option Nat) : (s.setPrev n q).entry = s.entry :=
  (Function.comp_update Node.toHandler s.node n _).trans (Function.update_eq_self n _)

@[simp] theorem next_setEntry (n : Nat) (h : Handler φ α δ) : (s.setEntry n h).next = s.next :=
  (Function.comp_update Node.next s.node n _).trans (Function.update_eq_self n _)

@[simp] theorem prev_setEntry (n : Nat) (h : Handler φ α δ) : (s.setEntry n h).prev = s.prev :=
  (Function.comp_update Node.prev s.node n _).trans (Function.update_eq_self n _)

@[simp] theorem entry_setEntry (n : Nat) (h : Handler φ α δ) :
    (s.setEntry n h).entry = Function.update s.entry n h :=
  Function.comp_update Node.toHandler s.node n _

theorem func_clearFunc (n : Nat) : ((s.clearFunc n).entry n).func = none := by
  rw [clearFunc, entry_setEntry, Function.update_self]

theorem entry_clearFunc_of_ne {m n : Nat} (hm : m ≠ n) : (s.clearFunc n).entry m = s.entry m := by
  rw [clearFunc, entry_setEntry, Function.update_of_ne hm]

@[simp] theorem next_setNext? (n q : Option Nat) :
    (s.setNext? n q).next = relink s.next n q := by
  cases n with
  | none => rfl
  | some n => exact s.next_setNext n q

@[simp] theorem prev_setPrev? (n q : Option Nat) :
    (s.setPrev? n q).prev = relink s.prev n q := by
  cases n with
  | none => rfl
  | some n => exact s.prev_setPrev n q

@[simp] theorem prev_setNext? (n q : Option Nat) : (s.setNext? n q).prev = s.prev := by
  cases n with
  | none => rfl
  | some n => exact s.prev_setNext n q

@[simp] theorem entry_setNext? (n q : Option Nat) : (s.setNext? n q).entry = s.entry := by
  cases n with
  | none => rfl
  | some n => exact s.entry_setNext n q

@[simp] theorem tail_setNext? (n q : Option Nat) : (s.setNext? n q).tail = s.tail := by
  cases n <;> rfl

@[simp] theorem len_setNext? (n q : Option Nat) : (s.setNext? n q).len = s.len := by
  cases n <;> rfl

@[simp] theorem capacity_setNext? (n q : Option Nat) :
    (s.setNext? n q).capacity = s.capacity := by
  cases n <;> rfl

@[simp] theorem next_setPrev? (n q : Option Nat) : (s.setPrev? n q).next = s.next := by
  cases n with
  | none => rfl
  | some n => exact s.next_setPrev n q

@[simp] theorem entry_setPrev? (n q : Option Nat) : (s.setPrev? n q).entry = s.entry := by
  cases n with
  | none => rfl
  | some n => exact s.entry_setPrev n q

@[simp] theorem tail_setPrev? (n q : Option Nat) : (s.setPrev? n q).tail = s.tail := by
  cases n <;> rfl

@[simp] theorem len_setPrev? (n q : Option Nat) : (s.setPrev? n q).len = s.len := by
  cases n <;> rfl

@[simp] theorem capacity_setPrev? (n q : Option Nat) :
    (s.setPrev? n q).capacity = s.capacity := by
  cases n <;> rfl

end ExitList

/-! ## Which nodes are in use -/

/-- The nodes in use, the oldest first, and the free ones. -/
structure Represents (s : ExitList φ α δ) (used free : List Nat) : Prop where
  nodup : (used ++ free).Nodup
  below : ∀ n ∈ used ++ free, n < s.capacity
  forward : Chain s.next (used ++ free) none
  back : Chain s.prev used.reverse none
  tail : s.tail = used.getLast?
  room : s.capacity ≤ s.len + free.length
  counted : used.length ≤ s.len

/-- Where no node is in use, the next one is taken from `head`. -/
def Anchored (s : ExitList φ α δ) (used free : List Nat) : Prop :=
  used = [] → s.head = free.head? ∧ s.len = 0

variable {s t : ExitList φ α δ} {used free old new : List Nat} {n : Nat}

/-- A node is taken from the free ones. -/
theorem represents_appendNode (h : Represents s used (n :: free)) (ha : Anchored s used (n :: free))
    (e : Handler φ α δ) :
    ∃ s', s.appendNode e = some s' ∧ Represents s' (used ++ [n]) free ∧
      s'.entry = Function.update s.entry n e ∧ s'.len = s.len + 1 := by
  have hn : n ∉ used := fun hmem => by
    have := List.disjoint_of_nodup_append h.nodup hmem
    simp at this
  have htail : (match s.tail with
      | none => s.head
      | some tail => s.next tail) = some n := by
    rcases List.eq_nil_or_concat used with rfl | ⟨u, t, rfl⟩
    · have : s.tail = none := h.tail
      rw [this]
      exact (ha rfl).1
    · have ht : s.tail = some t := by simp [h.tail]
      have hforward := h.forward
      rw [List.concat_eq_append, List.append_assoc] at hforward
      rw [ht]
      exact hforward.link
  refine ⟨_, by rw [ExitList.appendNode, htail], ?_, ?_, rfl⟩
  · have hassoc : used ++ [n] ++ free = used ++ n :: free := by simp
    constructor
    · rw [hassoc]
      exact h.nodup
    · rw [hassoc]
      exact h.below
    · rw [hassoc]
      show Chain ((s.setEntry n e).setPrev n s.tail).next _ _
      rw [ExitList.next_setPrev, ExitList.next_setEntry]
      exact h.forward
    · show Chain ((s.setEntry n e).setPrev n s.tail).prev _ _
      rw [ExitList.prev_setPrev, ExitList.prev_setEntry, List.reverse_append,
        List.reverse_singleton, List.singleton_append]
      refine ⟨?_, h.back.update_of_notMem (by simpa using hn)⟩
      rw [Function.update_self, h.tail, Option.or_none, List.head?_reverse]
    · simp
    · have := h.room
      simp only [List.length_cons] at this
      show s.capacity ≤ s.len + 1 + free.length
      omega
    · have := h.counted
      show (used ++ [n]).length ≤ s.len + 1
      simpa using this
  · show ((s.setEntry n e).setPrev n s.tail).entry = _
    rw [ExitList.entry_setPrev, ExitList.entry_setEntry]

/-! ## A new block -/

/-- Two lists that differ in their links forward only. -/
structure Relinked (s t : ExitList φ α δ) : Prop where
  prev : t.prev = s.prev
  entry : t.entry = s.entry
  tail : t.tail = s.tail
  len : t.len = s.len
  capacity : t.capacity = s.capacity
  head : t.head = s.head

/-- Only the number of nodes is not as it was. -/
theorem Relinked.withCapacity (h : Relinked s t) (capacity : Nat) :
    let t' := { t with capacity := capacity }
    t'.entry = s.entry ∧ t'.len = s.len ∧ t'.head = s.head :=
  ⟨h.entry, h.len, h.head⟩

theorem Relinked.setNext (h : Relinked s t) (n : Nat) (q : Option Nat) :
    Relinked s (t.setNext n q) :=
  ⟨(t.prev_setNext n q).trans h.prev, (t.entry_setNext n q).trans h.entry, h.tail, h.len,
    h.capacity, h.head⟩

/-- The loop of `grow`, after `k` rounds. -/
theorem linkBlock_loop (s : ExitList φ α δ) (nodes k : Nat) :
    let t := (List.range k).foldl (fun s i => s.setNext (nodes + i) (some (nodes + (i + 1)))) s
    Relinked s t ∧ Chain t.next (List.range' nodes k) (some (nodes + k)) ∧
      ∀ n, n < nodes → t.next n = s.next n := by
  induction k with
  | zero => exact ⟨⟨rfl, rfl, rfl, rfl, rfl, rfl⟩, Chain.nil, fun _ _ => rfl⟩
  | succ k ih =>
    obtain ⟨hsame, hchain, hbelow⟩ := ih
    simp only [List.range_succ, List.foldl_append, List.foldl_cons, List.foldl_nil]
    refine ⟨hsame.setNext _ _, ?_, ?_⟩
    · rw [List.range'_concat, Nat.one_mul, ExitList.next_setNext, Chain.append_iff]
      refine ⟨hchain.update_of_notMem ?_, by simp⟩
      simp
    · intro n hn
      rw [ExitList.next_setNext, Function.update_of_ne (by omega)]
      exact hbelow n hn

theorem linkBlock_spec (s : ExitList φ α δ) (nodes : Nat) :
    Relinked s (s.linkBlock nodes) ∧
      Chain (s.linkBlock nodes).next (List.range' nodes count) none ∧
      ∀ n, n < nodes → (s.linkBlock nodes).next n = s.next n := by
  obtain ⟨hsame, hchain, hbelow⟩ := linkBlock_loop s nodes (count - 1)
  refine ⟨hsame.setNext _ _, ?_, ?_⟩
  · rw [ExitList.linkBlock, ExitList.next_setNext]
    have hrange : List.range' nodes count =
        List.range' nodes (count - 1) ++ [nodes + (count - 1)] := by
      show List.range' nodes (count - 1 + 1) = _
      rw [List.range'_concat, Nat.one_mul]
    rw [hrange, Chain.append_iff]
    exact ⟨hchain.update_of_notMem (by simp), by simp⟩
  · intro n hn
    rw [ExitList.linkBlock, ExitList.next_setNext, Function.update_of_ne (by omega)]
    exact hbelow n hn

/-- The nodes of a block. -/
def block (nodes : Nat) : List Nat := List.range' nodes count

theorem mem_block {nodes : Nat} (hn : n ∈ block nodes) : nodes ≤ n ∧ n < nodes + count := by
  simpa [block] using hn

theorem block_nodup (nodes : Nat) : (block nodes).Nodup := List.nodup_range'

theorem length_block (nodes : Nat) : (block nodes).length = count := List.length_range'

/-- The first block, which `head` is set to. -/
theorem represents_firstBlock (hcap : s.capacity = 0) (hlen : s.len = 0) (htail : s.tail = none)
    (hsame : Relinked { s with head := some s.capacity } t)
    (hchain : Chain t.next (block s.capacity) none) :
    Represents { t with capacity := s.capacity + count } [] (block s.capacity) where
  nodup := block_nodup _
  below _ hn := (mem_block hn).2
  forward := hchain
  back := Chain.nil
  tail := hsame.tail.trans htail
  room := by
    show s.capacity + count ≤ t.len + _
    rw [hsame.len, length_block]
    show s.capacity + count ≤ s.len + count
    omega
  counted := Nat.zero_le _

/-- A further block, which is linked behind `tail`. -/
theorem represents_furtherBlock (h : Represents s (old ++ [n]) free) (hfull : s.capacity ≤ s.len)
    (hsame : Relinked s t) (hchain : Chain t.next (block s.capacity) none)
    (hbelow : ∀ m, m < s.capacity → t.next m = s.next m) :
    Represents { t.setNext n (some s.capacity) with capacity := s.capacity + count } (old ++ [n])
      (block s.capacity) := by
  have hlt : ∀ m ∈ old ++ [n], m < s.capacity := fun m hm => h.below m (List.mem_append_left _ hm)
  have hnodup : (old ++ [n]).Nodup := (List.nodup_append.mp h.nodup).1
  have hn : n ∉ old := fun hmem => by
    have := List.disjoint_of_nodup_append hnodup hmem
    simp at this
  constructor
  · refine List.nodup_append.mpr ⟨hnodup, block_nodup _, ?_⟩
    rintro m hm k hk rfl
    have := hlt m hm
    have := mem_block hk
    omega
  · intro m hm
    show m < s.capacity + count
    rcases List.mem_append.mp hm with hm | hm
    · have := hlt m hm
      omega
    · exact (mem_block hm).2
  · show Chain (t.setNext n (some s.capacity)).next _ _
    rw [ExitList.next_setNext, Chain.append_iff]
    constructor
    · have hold : Chain t.next (old ++ [n]) (free.head?.or none) :=
        (Chain.append_iff.mp h.forward).1.congr fun m hm => hbelow m (hlt m hm)
      exact hold.update_last hn
    · refine hchain.update_of_notMem fun hmem => ?_
      have := hlt n (by simp)
      have := mem_block hmem
      omega
  · show Chain (t.setNext n (some s.capacity)).prev _ _
    rw [ExitList.prev_setNext, hsame.prev]
    exact h.back
  · exact hsame.tail.trans h.tail
  · show s.capacity + count ≤ t.len + _
    rw [hsame.len, length_block]
    omega
  · show _ ≤ t.len
    rw [hsame.len]
    exact h.counted

/-- `grow`, where all nodes are in use: there is a free one, or no memory. -/
theorem represents_grow (h : Represents s used free) (ha : Anchored s used free)
    (hfull : s.capacity ≤ s.len) (malloc : Bool) :
    s.grow malloc = none ∧ malloc = false ∨
      ∃ s' n free', s.grow malloc = some s' ∧ Represents s' used (n :: free') ∧
        Anchored s' used (n :: free') ∧ s'.entry = s.entry ∧ s'.len = s.len := by
  have hcons : block s.capacity = s.capacity :: List.range' (s.capacity + 1) (count - 1) := rfl
  by_cases hm : s.capacity ≠ 0 ∧ malloc = false
  · exact Or.inl ⟨by rw [ExitList.grow, if_pos hm], hm.2⟩
  rcases List.eq_nil_or_concat used with rfl | ⟨u, t, rfl⟩
  · have hcap : s.capacity = 0 := by
      have := (ha rfl).2
      omega
    have htail : s.tail = none := h.tail
    obtain ⟨hsame, hchain, -⟩ := linkBlock_spec { s with head := some s.capacity } s.capacity
    have hgrow : s.grow malloc = some
        { ExitList.linkBlock { s with head := some s.capacity } s.capacity with
          capacity := s.capacity + count } := by
      unfold ExitList.grow
      simp only [if_neg hm, if_pos hcap, htail, ExitList.setNext?]
    obtain ⟨hentry, hlen, hhead⟩ := hsame.withCapacity (s.capacity + count)
    refine Or.inr ⟨_, s.capacity, List.range' (s.capacity + 1) (count - 1), hgrow, ?_,
      fun _ => ⟨hhead, hlen.trans (ha rfl).2⟩, hentry, hlen⟩
    rw [← hcons]
    exact represents_firstBlock hcap (ha rfl).2 htail hsame hchain
  · rw [List.concat_eq_append] at h ⊢
    have hcap : s.capacity ≠ 0 := by
      have := h.below t (by simp)
      omega
    obtain ⟨hsame, hchain, hbelow⟩ := linkBlock_spec s s.capacity
    have hgrow : s.grow malloc = some
        { (s.linkBlock s.capacity).setNext t (some s.capacity) with
          capacity := s.capacity + count } := by
      have htail : s.tail = some t := by simp [h.tail]
      unfold ExitList.grow
      simp only [if_neg hm, if_neg hcap, htail, ExitList.setNext?]
    obtain ⟨hentry, hlen, -⟩ := (hsame.setNext t (some s.capacity)).withCapacity
      (s.capacity + count)
    refine Or.inr ⟨_, s.capacity, List.range' (s.capacity + 1) (count - 1), hgrow, ?_,
      fun hnil => absurd hnil (by simp), hentry, hlen⟩
    rw [← hcons]
    exact represents_furtherBlock h hfull hsame hchain hbelow

/-- `__cxa_atexit`: the handler is registered in a node of its own, behind all others, or there is
no memory for it, and nothing changes. -/
theorem represents_cxaAtexit (h : Represents s used free) (ha : Anchored s used free)
    (malloc : Bool) (e : Handler φ α δ) :
    s.cxaAtexit malloc e = some (s, false) ∧ malloc = false ∨
      ∃ s' n free', s.cxaAtexit malloc e = some (s', true) ∧ n ∉ used ∧
        Represents s' (used ++ [n]) free' ∧ s'.entry = Function.update s.entry n e ∧
        s'.len = s.len + 1 := by
  have hfresh : ∀ {t : ExitList φ α δ} {n : Nat} {l : List Nat}, Represents t used (n :: l) →
      n ∉ used := fun ht hmem => by
    have := List.disjoint_of_nodup_append ht.nodup hmem
    simp at this
  unfold ExitList.cxaAtexit
  by_cases hfull : s.len ≥ s.capacity
  · rw [if_pos hfull]
    rcases represents_grow h ha hfull malloc with ⟨hgrow, hm⟩ |
      ⟨t, n, l, hgrow, ht, hta, hentry, hlen⟩
    · exact Or.inl ⟨by rw [hgrow], hm⟩
    · obtain ⟨s', happend, hs', hentry', hlen'⟩ := represents_appendNode ht hta e
      refine Or.inr ⟨s', n, l, by rw [hgrow]; simp [happend], hfresh ht, hs', ?_, ?_⟩
      · rw [hentry', hentry]
      · rw [hlen', hlen]
  · rw [if_neg hfull]
    cases free with
    | nil =>
      have := h.room
      simp only [List.length_nil] at this
      omega
    | cons n l =>
      obtain ⟨s', happend, hs', hentry, hlen⟩ := represents_appendNode h ha e
      exact Or.inr ⟨s', n, l, by simp [happend], hfresh h, hs', hentry, hlen⟩

/-! ## A node is removed -/

theorem Represents.prev_eq (h : Represents s (old ++ n :: new) free) :
    s.prev n = old.getLast? := by
  have hback := h.back
  rw [List.reverse_append, List.reverse_cons, List.append_assoc, List.singleton_append] at hback
  rw [hback.link, Option.or_none, List.head?_reverse]

/-- `tail` moves back, and what it was at is the first free node. -/
theorem Represents.moveBack (h : Represents s (old ++ [n]) free) {len : Nat} (head : Option Nat)
    (hlen : s.len ≤ len + 1) (hcounted : old.length ≤ len) :
    Represents { s with tail := s.prev n, head := head, len := len } old (n :: free) := by
  have hassoc : old ++ n :: free = old ++ [n] ++ free := by simp
  have hback := h.back
  rw [List.reverse_append, List.reverse_singleton, List.singleton_append] at hback
  constructor
  · rw [hassoc]
    exact h.nodup
  · rw [hassoc]
    exact h.below
  · rw [hassoc]
    exact h.forward
  · exact hback.2
  · exact h.prev_eq
  · have := h.room
    show s.capacity ≤ len + (free.length + 1)
    omega
  · exact hcounted

/-- What `remove_node` writes where the node is not the last one. -/
theorem removeNode_of_ne {m : Nat} (htail : s.tail = some m) (hm : m ≠ n) :
    let next := relink s.next (s.prev n) (s.next n)
    ∃ s', s.removeNode n = some (s', s.prev n) ∧
      s'.next = Function.update (Function.update next n (next m)) m (some n) ∧
      s'.prev = relink (Function.update (relink s.prev (s.next n) (s.prev n)) n (some m)) (next m)
        (some n) ∧
      s'.entry = s.entry ∧ s'.tail = some m ∧ s'.len = s.len - 1 ∧ s'.capacity = s.capacity := by
  intro next
  have hne : s.tail ≠ some n := by rw [htail]; simpa using hm
  have htail' : ((s.setPrev? (s.next n) (s.prev n)).setNext? (s.prev n) (s.next n)).tail =
      some m := by
    rw [ExitList.tail_setNext?, ExitList.tail_setPrev?, htail]
  have hnext : ((s.setPrev? (s.next n) (s.prev n)).setNext? (s.prev n) (s.next n)).next = next := by
    rw [ExitList.next_setNext?, ExitList.next_setPrev?]
  refine ⟨_, by simp only [ExitList.removeNode, if_neg hne, htail']; rfl, ?_, ?_, ?_, ?_, ?_, ?_⟩
  · show (ExitList.setPrev? _ _ _).next = _
    rw [ExitList.next_setPrev?, ExitList.next_setNext, ExitList.next_setNext,
      ExitList.next_setPrev, hnext]
  · show (ExitList.setPrev? _ _ _).prev = _
    rw [ExitList.prev_setPrev?, ExitList.prev_setNext, ExitList.prev_setNext,
      ExitList.prev_setPrev, hnext, ExitList.prev_setNext?, ExitList.prev_setPrev?]
  · show (ExitList.setPrev? _ _ _).entry = _
    rw [ExitList.entry_setPrev?, ExitList.entry_setNext, ExitList.entry_setNext,
      ExitList.entry_setPrev, ExitList.entry_setNext?, ExitList.entry_setPrev?]
  · show (ExitList.setPrev? _ _ _).tail = _
    rw [ExitList.tail_setPrev?]
    exact htail'
  · show (ExitList.setPrev? _ _ _).len - 1 = _
    rw [ExitList.len_setPrev?]
    show (ExitList.setNext? _ _ _).len - 1 = _
    rw [ExitList.len_setNext?, ExitList.len_setPrev?]
  · show (ExitList.setPrev? _ _ _).capacity = _
    rw [ExitList.capacity_setPrev?]
    show (ExitList.setNext? _ _ _).capacity = _
    rw [ExitList.capacity_setNext?, ExitList.capacity_setPrev?]

/-- The node is taken out from between others, and put behind `tail`. -/
theorem Represents.unlink (h : Represents s (old ++ n :: new) free) (hnew : new ≠ [])
    (hlen : s.len = (old ++ n :: new).length) :
    ∃ s', s.removeNode n = some (s', old.getLast?) ∧ Represents s' (old ++ new) (n :: free) ∧
      s'.entry = s.entry ∧ s'.len = (old ++ new).length := by
  obtain ⟨m, hm⟩ : ∃ m, new.getLast? = some m := by
    cases hl : new.getLast? with
    | none => exact absurd (List.getLast?_eq_none_iff.mp hl) hnew
    | some m => exact ⟨m, rfl⟩
  have hmem : m ∈ new := List.mem_of_getLast? hm
  have htail : s.tail = some m := by
    rw [h.tail, List.getLast?_append, List.getLast?_cons, hm]
    rfl
  have hperm : (old ++ n :: new ++ free).Perm (n :: (old ++ new ++ free)) := by
    simp
  obtain ⟨hn, hnodup⟩ := List.nodup_cons.mp (hperm.nodup_iff.mp h.nodup)
  obtain ⟨hon, -, hfree⟩ := List.nodup_append.mp hnodup
  obtain ⟨hold, hnd, hdis⟩ := List.nodup_append.mp hon
  simp only [List.mem_append, not_or] at hn
  have hmold : m ∉ old := fun hmo => hdis m hmo m hmem rfl
  have hmfree : m ∉ free := fun hmf => hfree m (List.mem_append_right _ hmem) m hmf rfl
  have hne : m ≠ n := fun heq => hn.1.2 (heq ▸ hmem)
  have hheads : ∀ l : List Nat, (new ++ l).head?.or none = new.head? := fun l => by
    rw [List.head?_append_of_ne_nil _ hnew, Option.or_none]
  obtain ⟨s', hremove, hnext, hprev, hentry, htail', hlen', hcap⟩ := removeNode_of_ne htail hne
  rw [h.prev_eq] at hremove hnext hprev
  -- the links forward, with the node in front linked to what is behind the removed one
  have hforward := h.forward
  rw [List.append_assoc, List.cons_append, Chain.append_iff, Chain, hheads, Chain.append_iff,
    Option.or_none] at hforward
  obtain ⟨hfold, hfn, hfnew, hffree⟩ := hforward
  rw [hfn] at hnext hprev
  have hlast : ∀ x ∈ old.getLast?, x ∈ old := fun x hx => List.mem_of_getLast? hx
  have hgnew := hfnew.relink_of_notMem (p := new.head?)
    fun x hx hmem => hdis x (hlast x hx) x hmem rfl
  rw [hgnew.last hm, Option.or_none] at hnext hprev
  have hback := h.back
  rw [List.reverse_append, List.reverse_cons, List.append_assoc, List.singleton_append,
    Chain.append_iff, Chain] at hback
  obtain ⟨hbnew, -, hbold⟩ := hback
  have hperm' : (old ++ new ++ n :: free).Perm (old ++ n :: new ++ free) :=
    List.perm_middle.trans hperm.symm
  have hcount : (old ++ n :: new).length = (old ++ new).length + 1 := by
    simp only [List.length_append, List.length_cons]
    omega
  rw [hlen, hcount, Nat.add_sub_cancel] at hlen'
  refine ⟨s', hremove, ⟨hperm'.nodup_iff.mpr h.nodup, ?_, ?_, ?_, ?_, ?_,
    Nat.le_of_eq hlen'.symm⟩, hentry, hlen'⟩
  · intro x hx
    rw [hcap]
    exact h.below x (hperm'.mem_iff.mp hx)
  · rw [hnext, List.append_assoc, Chain.append_iff, Chain.append_iff, Chain]
    rw [List.head?_append_of_ne_nil _ hnew, Option.or_none, Option.or_none]
    refine ⟨?_, ?_, ?_, ?_⟩
    · have hlinked : Chain (relink s.next old.getLast? new.head?) old new.head? :=
        hfold.relink_last hold
      exact (hlinked.update_of_notMem hn.1.1).update_of_notMem hmold
    · have hlinked := hgnew.update_of_notMem (p := free.head?) hn.1.2
      have := hlinked.relink_last (p := some n) hnd
      rwa [hm] at this
    · rw [Function.update_of_ne hne.symm, Function.update_self, Option.or_none]
    · refine Chain.update_of_notMem (Chain.update_of_notMem ?_ hn.2) hmfree
      refine hffree.relink_of_notMem fun x hx hmem => ?_
      exact hfree x (List.mem_append_left _ (hlast x hx)) x hmem rfl
  · rw [hprev, List.reverse_append, Chain.append_iff, List.head?_reverse, Option.or_none]
    constructor
    · have hlinked := hbnew.relink_last (p := old.getLast?) (List.nodup_reverse.mpr hnd)
      rw [List.getLast?_reverse] at hlinked
      refine (hlinked.update_of_notMem ?_).relink_of_notMem fun x hx hmem => ?_
      · rw [List.mem_reverse]
        exact hn.1.2
      · exact hfree x (List.mem_append_right _ (List.mem_reverse.mp hmem)) x
          (List.mem_of_head? hx) rfl
    · refine Chain.relink_of_notMem (Chain.update_of_notMem (Chain.relink_of_notMem hbold ?_) ?_) ?_
      · intro x hx hmem
        exact hdis x (List.mem_reverse.mp hmem) x (List.mem_of_head? hx) rfl
      · rw [List.mem_reverse]
        exact hn.1.1
      · intro x hx hmem
        exact hfree x (List.mem_append_left _ (List.mem_reverse.mp hmem)) x
          (List.mem_of_head? hx) rfl
  · rw [htail', List.getLast?_append, hm]
    rfl
  · have := h.room
    rw [hcap, hlen', List.length_cons]
    rw [hlen, hcount] at this
    omega

/-- `remove_node`: the node is free again, and the others stay in their order. -/
theorem represents_removeNode (h : Represents s (old ++ n :: new) free)
    (hlen : s.len = (old ++ n :: new).length) :
    ∃ s', s.removeNode n = some (s', old.getLast?) ∧ Represents s' (old ++ new) (n :: free) ∧
      Anchored s' (old ++ new) (n :: free) ∧ s'.entry = s.entry ∧
      s'.len = (old ++ new).length := by
  by_cases hnew : new = []
  · subst hnew
    have htail : s.tail = some n := by simp [h.tail]
    have hremove : s.removeNode n = some ({ s with
        tail := s.prev n
        head := if s.prev n = none then some n else s.head
        len := s.len - 1 }, old.getLast?) := by
      rw [← h.prev_eq, ExitList.removeNode, if_pos htail]
    have hcount : s.len = old.length + 1 := by rw [hlen]; simp
    rw [List.append_nil]
    refine ⟨_, hremove, h.moveBack _ (by omega) (by omega), ?_, rfl, ?_⟩
    · rintro rfl
      have : s.prev n = none := h.prev_eq
      refine ⟨if_pos this, ?_⟩
      show s.len - 1 = 0
      rw [hcount]
      rfl
    · show s.len - 1 = _
      omega
  · obtain ⟨s', hremove, hs', hentry, hlen'⟩ := h.unlink hnew hlen
    refine ⟨s', hremove, hs', fun hnil => absurd hnil ?_, hentry, hlen'⟩
    simp [hnew]

/-! ## The handlers -/

/-- The nodes in use, the newest first: `tail`, and from there on along `prev`. -/
def ExitList.nodes (s : ExitList φ α δ) : List Nat := walk s.prev s.len s.tail

theorem Represents.nodes_eq (h : Represents s used free) : s.nodes = used.reverse := by
  rw [ExitList.nodes, h.tail, ← List.head?_reverse]
  exact h.back.walk_eq (by simpa using h.counted)

theorem Represents.nodes_split (h : Represents s (old ++ n :: new) free) :
    s.nodes = new.reverse ++ n :: old.reverse ∧ n ∉ new.reverse ∧ n ∉ old.reverse := by
  have hnodup := (List.nodup_append.mp h.nodup).1
  rw [List.nodup_middle, List.nodup_cons, List.mem_append, not_or] at hnodup
  refine ⟨?_, by simpa using hnodup.1.2, by simpa using hnodup.1.1⟩
  rw [h.nodes_eq, List.reverse_append, List.reverse_cons, List.append_assoc,
    List.singleton_append]

theorem Represents.clearFunc (h : Represents s used free) (n : Nat) :
    Represents (s.clearFunc n) used free :=
  ⟨h.nodup, h.below, (s.next_setEntry n _).symm ▸ h.forward, (s.prev_setEntry n _).symm ▸ h.back,
    h.tail, h.room, h.counted⟩

end Musl.Atexit
