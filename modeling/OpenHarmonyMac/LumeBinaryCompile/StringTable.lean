import OpenHarmonyMac.LumeBinaryCompile.Assets

/-!
# Names in an object file

The writers of ELF and COFF objects collect names in a local buffer of 256 bytes. The length of a
name is not checked.

* `addString` — the lambda of both writers, `none` where it writes outside of the buffer
* `addString_eq_some_iff` — when it does not
-/

namespace LumeBinaryCompile

open Infra

/-- `char stringtable[256]`, as far as it has been written. -/
structure StringTable where
  bytes : Bytes
  fits : bytes.length ≤ 256

/-- `addString`: the offset of the name, and the table with it. `copy` stops at the end of the
buffer, but the NUL comes behind what it has copied. -/
def addString (table : StringTable) (a : Text) : Option (Nat × StringTable) :=
  let offset := table.bytes.length
  let copied := a.bytes.take (256 - offset)
  if h : offset + copied.length < 256 then
    some (offset, ⟨table.bytes ++ (copied ++ [0]), by
      rw [List.length_append, List.length_append, List.length_singleton]
      omega⟩)
  else none

/-- The size of the table with another name. -/
theorem addString_eq_some_iff {table table' : StringTable} {a : Text} {offset : Nat} :
    addString table a = some (offset, table') ↔
      table.bytes.length + (a.bytes.length + 1) ≤ 256 ∧ offset = table.bytes.length ∧
        table'.bytes = table.bytes ++ (a.bytes ++ [0]) := by
  unfold addString
  have hfits := table.fits
  constructor
  · intro h
    dsimp only at h
    split at h
    case isFalse => cases h
    case isTrue hlt =>
      obtain ⟨rfl, rfl⟩ := Prod.mk.inj (Option.some.inj h)
      rw [List.length_take] at hlt
      have hall : a.bytes.take (256 - table.bytes.length) = a.bytes :=
        List.take_of_length_le (by omega)
      exact ⟨by omega, rfl, congrArg (fun copied => table.bytes ++ (copied ++ [0])) hall⟩
  · rintro ⟨hle, rfl, hbytes⟩
    have hall : a.bytes.take (256 - table.bytes.length) = a.bytes :=
      List.take_of_length_le (by omega)
    dsimp only
    rw [dif_pos (by rw [hall]; omega)]
    obtain ⟨bytes, fits⟩ := table'
    obtain rfl : bytes = _ := hbytes
    simp only [hall]

/-- A name that fits is added behind the others. -/
theorem addString_of_fits {table : StringTable} {a : Text}
    (h : table.bytes.length + (a.bytes.length + 1) ≤ 256) : ∃ table' : StringTable,
      addString table a = some (table.bytes.length, table') ∧
        table'.bytes = table.bytes ++ (a.bytes ++ [0]) := by
  have hfits : (table.bytes ++ (a.bytes ++ [0])).length ≤ 256 := by
    rw [List.length_append, List.length_append]
    exact h
  exact ⟨⟨_, hfits⟩, addString_eq_some_iff.mpr ⟨h, rfl, rfl⟩, rfl⟩

section

variable {table table' : StringTable} {a : Text} {offset : Nat}

/-- A name that has been added is at its offset. -/
theorem addString_at (h : addString table a = some (offset, table')) :
    At table'.bytes offset (a.bytes ++ [0]) := by
  obtain ⟨-, rfl, hbytes⟩ := addString_eq_some_iff.mp h
  rw [hbytes]
  exact at_right _ _

/-- What was in the table stays where it is. -/
theorem addString_extends (h : addString table a = some (offset, table')) :
    table.bytes <+: table'.bytes := by
  obtain ⟨-, -, hbytes⟩ := addString_eq_some_iff.mp h
  exact ⟨_, hbytes.symm⟩

/-- The length of a table with another name. -/
theorem length_of_addString (h : addString table a = some (offset, table')) :
    table'.bytes.length = table.bytes.length + (a.bytes.length + 1) := by
  obtain ⟨-, -, hbytes⟩ := addString_eq_some_iff.mp h
  rw [hbytes, List.length_append, List.length_append, List.length_singleton]

end

/-- What the writers are given: the size and the data that it is the size of. -/
structure InputData where
  bytes : Bytes
  sizeOfData : Nat
  length_eq : bytes.length = sizeOfData + 8

end LumeBinaryCompile
