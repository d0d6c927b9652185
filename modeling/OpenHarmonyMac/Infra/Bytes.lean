import Mathlib.Data.List.TakeWhile
import Mathlib.Tactic.Ring

/-!
# Bytes and where they lie

Numbers in little-endian order, and the places of byte strings in a file.

* `ofLe_le` — a number is read back as it was written, up to its width
* `At` — the bytes lie at an offset of the data; `At.trans` goes from a part of a part to a part
* `slice`, `cStringAt` — reading a range, and a text up to its NUL
-/

namespace Infra

abbrev Bytes := List UInt8

/-! ## Numbers -/

/-- The `w` low bytes of `n`, the lowest first. -/
def le : Nat → Nat → Bytes
  | 0, _ => []
  | w + 1, n => UInt8.ofNat n :: le w (n / 256)

/-- The number that the bytes spell, the lowest first. -/
def ofLe : Bytes → Nat
  | [] => 0
  | b :: bs => b.toNat + 256 * ofLe bs

@[simp] theorem length_le (w n : Nat) : (le w n).length = w := by
  induction w generalizing n with
  | zero => rfl
  | succ w ih => rw [le, List.length_cons, ih]

theorem ofLe_le (w n : Nat) : ofLe (le w n) = n % 256 ^ w := by
  induction w generalizing n with
  | zero => rw [pow_zero, Nat.mod_one]; rfl
  | succ w ih =>
    have hsplit : n % (256 * 256 ^ w) = n % 256 + 256 * (n / 256 % 256 ^ w) := Nat.mod_mul
    rw [le, ofLe, ih, pow_succ' 256 w, hsplit, UInt8.toNat_ofNat']

theorem pow_bytes (w : Nat) : 256 ^ w = 2 ^ (8 * w) := by
  rw [show 256 = 2 ^ 8 from rfl, ← pow_mul]

/-! ## Places -/

variable {data data' bs cs : Bytes} {off off' len : Nat}

/-- The bytes `bs` lie at the offset `off` of `data`. -/
def At (data : Bytes) (off : Nat) (bs : Bytes) : Prop :=
  ∃ pre post, data = pre ++ bs ++ post ∧ pre.length = off

theorem at_self (bs : Bytes) : At bs 0 bs := ⟨[], [], by simp, rfl⟩

theorem At.end_le (h : At data off bs) : off + bs.length ≤ data.length := by
  obtain ⟨pre, post, rfl, rfl⟩ := h
  simp

/-- What lies in bytes that lie in the data lies in the data. -/
theorem At.trans (h : At data off bs) (h' : At bs off' cs) : At data (off + off') cs := by
  obtain ⟨pre, post, rfl, rfl⟩ := h
  obtain ⟨pre', post', rfl, rfl⟩ := h'
  exact ⟨pre ++ pre', post' ++ post, by simp, by simp⟩

theorem at_left (bs cs : Bytes) : At (bs ++ cs) 0 bs := ⟨[], cs, rfl, rfl⟩

theorem at_right (bs cs : Bytes) : At (bs ++ cs) bs.length cs := ⟨bs, [], by simp, rfl⟩

theorem At.left (h : At data off (bs ++ cs)) : At data off bs := h.trans (at_left bs cs)

theorem At.right (h : At data off (bs ++ cs)) : At data (off + bs.length) cs :=
  h.trans (at_right bs cs)

/-- More bytes behind the data change nothing. -/
theorem At.mono (h : At data off bs) (hextends : data <+: data') : At data' off bs := by
  obtain ⟨post, rfl⟩ := hextends
  have hall := (at_left data post).trans h
  rwa [Nat.zero_add] at hall

/-- More bytes in front of the data shift the places. -/
theorem At.prepend (h : At data off bs) (pre : Bytes) : At (pre ++ data) (pre.length + off) bs :=
  (at_right pre data).trans h

/-- Two extents, which are offsets with sizes, have no byte in common. -/
def Apart (p q : Nat × Nat) : Prop := p.1 + p.2 ≤ q.1 ∨ q.1 + q.2 ≤ p.1

/-! ## Reading -/

/-- The `len` bytes at `off`, when they lie in the data. -/
def slice (data : Bytes) (off len : Nat) : Option Bytes :=
  if off + len ≤ data.length then some ((data.drop off).take len) else none

theorem slice_eq_some_iff : slice data off len = some bs ↔ At data off bs ∧ bs.length = len := by
  unfold slice
  constructor
  · intro h
    split at h
    case isFalse => cases h
    case isTrue hle =>
      obtain rfl := Option.some.inj h
      refine ⟨⟨data.take off, (data.drop off).drop len, ?_, ?_⟩, ?_⟩
      · rw [List.append_assoc, List.take_append_drop, List.take_append_drop]
      · rw [List.length_take]
        omega
      · rw [List.length_take, List.length_drop]
        omega
  · rintro ⟨hat, rfl⟩
    have hle := hat.end_le
    obtain ⟨pre, post, rfl, rfl⟩ := hat
    rw [if_pos hle, List.append_assoc, List.drop_left, List.take_left]

theorem At.slice (h : At data off bs) : slice data off bs.length = some bs :=
  slice_eq_some_iff.mpr ⟨h, rfl⟩

/-- The text at `off` without the NUL that ends it. -/
def cStringAt (data : Bytes) (off : Nat) : Option Bytes :=
  let text := (data.drop off).takeWhile (· != 0)
  if off + text.length < data.length then some text else none

theorem At.cStringAt (h : At data off (bs ++ [0])) (hbs : 0 ∉ bs) : cStringAt data off = some bs := by
  have hle := h.end_le
  obtain ⟨pre, post, rfl, rfl⟩ := h
  have hne : ∀ b ∈ bs, (b != 0) = true := by
    intro b hb
    rw [bne_iff_ne]
    rintro rfl
    exact hbs hb
  have htext : ((pre ++ (bs ++ [0]) ++ post).drop pre.length).takeWhile (· != 0) = bs := by
    rw [List.append_assoc, List.drop_left, List.append_assoc, List.takeWhile_append_of_pos hne]
    simp
  unfold Infra.cStringAt
  rw [List.length_append, List.length_singleton] at hle
  simp only [htext]
  rw [if_pos (by omega)]

end Infra
