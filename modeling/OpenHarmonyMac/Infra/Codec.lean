import OpenHarmonyMac.Infra.Bytes

/-!
# Records of a fixed size

A codec says how a record is laid out in a file. Those of the fields are put together to that of
the record, and with them the law that a record is read back as it was written.

* `Codec` — a layout with its law
* `word`, `wordBE`, `raw`, `pair`, `map` — the ways to build one
* `At.read`, `At.readAll` — reading a record, and several in a row
-/

namespace Infra

/-- A number that fits its field. -/
theorem toNat_ofNat_of_lt {w n : Nat} (h : n < 2 ^ w) : (BitVec.ofNat w n).toNat = n := by
  rw [BitVec.toNat_ofNat]
  exact Nat.mod_eq_of_lt h

/-- A layout of records in `size` bytes. -/
structure Codec (α : Type) where
  size : Nat
  encode : α → Bytes
  decode : Bytes → α
  length_encode : ∀ a, (encode a).length = size
  decode_encode : ∀ a rest, decode (encode a ++ rest) = a

namespace Codec

variable {α β : Type}

/-- A number of `w` bytes, the lowest first. -/
def word (w : Nat) : Codec (BitVec (8 * w)) where
  size := w
  encode x := le w x.toNat
  decode bs := BitVec.ofNat (8 * w) (ofLe (bs.take w))
  length_encode x := length_le w x.toNat
  decode_encode x rest := by
    rw [List.take_left' (length_le w _), ofLe_le, pow_bytes, Nat.mod_eq_of_lt x.isLt,
      BitVec.ofNat_toNat, BitVec.setWidth_eq]

/-- A number of `w` bytes, the highest first. -/
def wordBE (w : Nat) : Codec (BitVec (8 * w)) where
  size := w
  encode x := (le w x.toNat).reverse
  decode bs := BitVec.ofNat (8 * w) (ofLe (bs.take w).reverse)
  length_encode x := by rw [List.length_reverse, length_le]
  decode_encode x rest := by
    rw [List.take_left' (by rw [List.length_reverse, length_le]), List.reverse_reverse, ofLe_le,
      pow_bytes, Nat.mod_eq_of_lt x.isLt, BitVec.ofNat_toNat, BitVec.setWidth_eq]

/-- An array of `n` bytes. -/
def raw (n : Nat) : Codec { bs : Bytes // bs.length = n } where
  size := n
  encode bs := bs.val
  decode bs :=
    if h : (bs.take n).length = n then ⟨bs.take n, h⟩
    else ⟨List.replicate n 0, List.length_replicate⟩
  length_encode bs := bs.property
  decode_encode bs rest := by
    have htake : (bs.val ++ rest).take n = bs.val := List.take_left' bs.property
    simp only [htake, bs.property, dif_pos]

/-- One record behind the other. -/
def pair (c : Codec α) (d : Codec β) : Codec (α × β) where
  size := c.size + d.size
  encode x := c.encode x.1 ++ d.encode x.2
  decode bs := (c.decode bs, d.decode (bs.drop c.size))
  length_encode x := by rw [List.length_append, c.length_encode, d.length_encode]
  decode_encode x rest := by
    rw [List.append_assoc, c.decode_encode, List.drop_left' (c.length_encode _), d.decode_encode]

/-- The same layout for records that are put together from their parts. -/
def map (c : Codec α) (make : α → β) (parts : β → α) (h : ∀ b, make (parts b) = b) : Codec β where
  size := c.size
  encode b := c.encode (parts b)
  decode bs := make (c.decode bs)
  length_encode b := c.length_encode (parts b)
  decode_encode b rest := by rw [c.decode_encode, h]

/-- Reads a record. -/
def read (c : Codec α) (data : Bytes) (off : Nat) : Option α :=
  (slice data off c.size).map c.decode

/-- Records in a row. -/
def encodeAll (c : Codec α) (as : List α) : Bytes := as.flatMap c.encode

/-- Reads `n` records in a row. -/
def readAll (c : Codec α) (data : Bytes) : Nat → Nat → Option (List α)
  | _, 0 => some []
  | off, n + 1 => do
    let a ← c.read data off
    let as ← c.readAll data (off + c.size) n
    some (a :: as)

theorem length_encodeAll (c : Codec α) (as : List α) :
    (c.encodeAll as).length = c.size * as.length := by
  induction as with
  | nil => rfl
  | cons a as ih =>
    rw [encodeAll, List.flatMap_cons, List.length_append, c.length_encode, ← encodeAll, ih,
      List.length_cons, Nat.mul_succ, Nat.add_comm]

theorem encodeAll_append (c : Codec α) (as bs : List α) :
    c.encodeAll (as ++ bs) = c.encodeAll as ++ c.encodeAll bs := List.flatMap_append

end Codec

variable {α : Type} {c : Codec α} {a : α} {as : List α} {data : Bytes} {off i : Nat}

/-- **A record is read as it was written.** -/
theorem At.read (h : At data off (c.encode a)) : c.read data off = some a := by
  have hslice := h.slice
  rw [c.length_encode] at hslice
  unfold Codec.read
  rw [hslice, Option.map_some]
  have hdecode := c.decode_encode a []
  rw [List.append_nil] at hdecode
  rw [hdecode]

/-- The records of a row, each at its place. -/
theorem At.item (h : At data off (c.encodeAll as)) (hi : as[i]? = some a) :
    At data (off + c.size * i) (c.encode a) := by
  obtain ⟨hlt, rfl⟩ := List.getElem?_eq_some_iff.mp hi
  refine h.trans ?_
  have hsplit : c.encodeAll as =
      c.encodeAll (as.take i) ++ (c.encode as[i] ++ c.encodeAll (as.drop (i + 1))) := by
    conv_lhs => rw [← List.take_append_drop i as, List.drop_eq_getElem_cons hlt]
    rw [Codec.encodeAll_append]
    rfl
  have hlen : (c.encodeAll (as.take i)).length = c.size * i := by
    rw [Codec.length_encodeAll, List.length_take, Nat.min_eq_left hlt.le]
  rw [hsplit, ← hlen]
  exact (at_right _ _).left

/-- **A row of records is read as it was written.** -/
theorem At.readAll (h : At data off (c.encodeAll as)) :
    c.readAll data off as.length = some as := by
  induction as generalizing off with
  | nil => rfl
  | cons a as ih =>
    have hsplit : At data off (c.encode a ++ c.encodeAll as) := h
    have hrest := hsplit.right
    rw [c.length_encode] at hrest
    rw [List.length_cons, Codec.readAll, hsplit.left.read, ih hrest]
    rfl

end Infra
