import OpenHarmonyMac.Infra.Fnv1a

/-!
# The hash of the logging library

`GenerateHash` is FNV-1a, except that it takes each byte as a plain `char`, which has a sign on some
platforms.

* `generateHash` — `GenerateHash`
* `returns_fnv1a_iff` — when it returns the hash of the unsigned bytes
-/

namespace Hilog

open Infra.Fnv1a

/-- What the platform decides: whether plain `char` is signed, and the bits of `unsigned long`. -/
structure Platform where
  charSigned : Bool
  longBits : Nat

def PRIME : BitVec 64 := 0x100000001B3

def BASIS : BitVec 64 := 0xCBF29CE484222325

/-- A `char` as a `uint64_t` -/
def Platform.charValue (h : Platform) (c : BitVec 8) : BitVec 64 :=
  if h.charSigned then c.signExtend 64 else c.setWidth 64

/-- The loop of `GenerateHash`. There is no result when the fuel has run out. -/
def hashLoop (h : Platform) (p : List (BitVec 8)) : Nat → Nat → BitVec 64 → Option (BitVec 64)
  | 0, _, _ => none
  | fuel + 1, i, ret =>
    if hi : i < p.length then
      hashLoop h p fuel ((i + 1) % 2 ^ h.longBits) ((ret ^^^ h.charValue p[i]) * PRIME)
    else some ret

/-- `GenerateHash` of the bytes at `p`, where `size` is how many these are. -/
def generateHash (h : Platform) (p : List (BitVec 8)) (fuel : Nat) : Option (BitVec 64) :=
  hashLoop h p fuel 0 BASIS

def Returns (h : Platform) (p : List (BitVec 8)) (ret : BitVec 64) : Prop :=
  ∃ fuel, generateHash h p fuel = some ret

variable {h : Platform} {p : List (BitVec 8)} {fuel i : Nat} {ret r : BitVec 64}

/-- The loop ends where `i` can reach the size. -/
theorem hashLoop_eq_some_iff (hsize : p.length < 2 ^ h.longBits) (hi : i ≤ p.length) :
    hashLoop h p fuel i ret = some r ↔
      p.length - i < fuel ∧ r = hashFrom h.charValue PRIME ret (p.drop i) := by
  induction fuel generalizing i ret with
  | zero => simp [hashLoop]
  | succ fuel ih =>
    rw [hashLoop]
    split
    case isTrue hlt =>
      have hnext : (i + 1) % 2 ^ h.longBits = i + 1 := Nat.mod_eq_of_lt (by omega)
      have hfuel : p.length - (i + 1) < fuel ↔ p.length - i < fuel + 1 := by omega
      rw [hnext, ih hlt, hfuel, List.drop_eq_getElem_cons hlt]
      rfl
    case isFalse hge =>
      have hend : p.length ≤ i := Nat.le_of_not_lt hge
      rw [List.drop_eq_nil_of_le hend, Option.some.injEq]
      have hfuel : p.length - i < fuel + 1 := by omega
      simp [hfuel, hashFrom, eq_comm]

/-- An `i` that wraps around in front of the size never reaches it. -/
theorem hashLoop_eq_none (hsize : 2 ^ h.longBits ≤ p.length) (hi : i < 2 ^ h.longBits) :
    hashLoop h p fuel i ret = none := by
  induction fuel generalizing i ret with
  | zero => rfl
  | succ fuel ih =>
    rw [hashLoop, dif_pos (Nat.lt_of_lt_of_le hi hsize)]
    exact ih (Nat.mod_lt _ (Nat.two_pow_pos _))

theorem returns_iff : Returns h p r ↔
    p.length < 2 ^ h.longBits ∧ r = hashFrom h.charValue PRIME BASIS p := by
  by_cases hsize : p.length < 2 ^ h.longBits
  · have hloop (fuel : Nat) : generateHash h p fuel = some r ↔
        p.length < fuel ∧ r = hashFrom h.charValue PRIME BASIS p :=
      hashLoop_eq_some_iff hsize (Nat.zero_le _)
    simp only [Returns, hloop, hsize, true_and, exists_and_right]
    exact and_iff_right ⟨_, Nat.lt_succ_self _⟩
  · refine iff_of_false ?_ fun hret => hsize hret.1
    rintro ⟨fuel, hfuel⟩
    rw [generateHash, hashLoop_eq_none (Nat.le_of_not_lt hsize) (Nat.two_pow_pos _)] at hfuel
    cases hfuel

/-- The hash of the bytes as `char`s is that of the unsigned bytes where there are no signs or they
cancel out. -/
theorem hashFrom_charValue_iff (h : Platform) (p : List (BitVec 8)) :
    fnv1a p = hashFrom h.charValue PRIME BASIS p ↔
      h.charSigned = false ∨ SignsCancel PRIME (lowByte BASIS) p := by
  have hfnv : fnv1a p = hashFrom (·.setWidth 64) PRIME BASIS p := rfl
  rw [hfnv, eq_comm]
  cases hsigned : h.charSigned with
  | false =>
    have hvalue : h.charValue = (·.setWidth 64) := by
      funext c
      simp [Platform.charValue, hsigned]
    exact iff_of_true (by rw [hvalue]) (.inl rfl)
  | true =>
    have hvalue : h.charValue = (·.signExtend 64) := by
      funext c
      simp [Platform.charValue, hsigned]
    rw [hvalue, hashFrom_signExtend_eq_iff (by decide)]
    simp

/-- The hash of ASCII text is the same everywhere. -/
theorem returns_fnv1a_of_ascii (hsize : p.length < 2 ^ h.longBits)
    (hascii : ∀ c ∈ p, c.msb = false) : Returns h p (fnv1a p) :=
  returns_iff.mpr ⟨hsize, (hashFrom_charValue_iff h p).mpr (.inr (signsCancel_of_ascii hascii _))⟩

/-- FNV-1a is returned exactly when `i` can reach the size, and `char` is unsigned or the signs of
the bytes cancel out. -/
theorem returns_fnv1a_iff (h : Platform) (p : List (BitVec 8)) :
    Returns h p (fnv1a p) ↔ p.length < 2 ^ h.longBits ∧
      (h.charSigned = false ∨ SignsCancel PRIME (lowByte BASIS) p) :=
  returns_iff.trans (and_congr_right fun _ => hashFrom_charValue_iff h p)

/-- The second sign takes the first one back. -/
example : SignsCancel PRIME (lowByte BASIS) [0xA5, 0x80] := by decide

/-- The two bytes of `é` have another hash where `char` is signed. -/
theorem signed_bytes_differ : ¬ Returns ⟨true, 64⟩ [0xC3, 0xA9] (fnv1a [0xC3, 0xA9]) := by
  rw [returns_iff]
  rintro ⟨-, heq⟩
  exact absurd heq (by decide)

end Hilog
