import Mathlib.Data.Int.ModEq
import Mathlib.Data.List.Count
import Mathlib.Tactic.Ring

/-!
# FNV-1a

The hash takes each byte into its lowest one and multiplies. A byte that is extended with its sign
also flips the bits above, that is, it turns the sign of `centre`. What is added to that later does
not depend on it, so that two turns may cancel out.

* `fnv1a` — the hash of 64 bits
* `hashFrom` — with any way to make a word of a byte
* `SignsCancel` — the turns cancel out
* `hashFrom_signExtend_eq_iff` — when signed bytes have the hash of unsigned ones
-/

namespace Infra

namespace Fnv1a

/-- The bytes are taken into the hash `s`. -/
def hashFrom (extend : BitVec 8 → BitVec 64) (prime s : BitVec 64) (bytes : List (BitVec 8)) :
    BitVec 64 :=
  bytes.foldl (fun s c => (s ^^^ extend c) * prime) s

def fnvPrime : BitVec 64 := 1099511628211

def offsetBasis : BitVec 64 := 14695981039346656037

/-- FNV-1a of 64 bits -/
def fnv1a (bytes : List (BitVec 8)) : BitVec 64 :=
  hashFrom (·.setWidth 64) fnvPrime offsetBasis bytes

/-! ## Above the lowest byte -/

def lowByte (s : BitVec 64) : BitVec 8 := s.setWidth 8

/-- Twice the number above the lowest byte, and one more. -/
def centre (s : BitVec 64) : Int := 2 * (s.toNat / 256 : Nat) + 1

/-- What the lowest byte adds to the centre when the word is multiplied. -/
def share (prime : BitVec 64) (low : BitVec 8) : Int :=
  2 * (low.toNat * prime.toNat / 256 : Nat) + 1 - prime.toNat

/-- An odd number of the bytes are high ones, from `0x80` on. -/
def OddHigh (bytes : List (BitVec 8)) : Prop := bytes.countP BitVec.msb % 2 = 1

instance (bytes : List (BitVec 8)) : Decidable (OddHigh bytes) :=
  inferInstanceAs (Decidable (_ = _))

/-- What the bytes with an odd number of high ones behind them add to the centre in the end. -/
def turned (prime : BitVec 64) (low : BitVec 8) : List (BitVec 8) → Int
  | [] => 0
  | c :: cs =>
    (if OddHigh cs then share prime (low ^^^ c) * (prime.toNat : Int) ^ cs.length else 0) +
      turned prime ((low ^^^ c) * lowByte prime) cs

/-- The signs of the bytes cancel out: there are none or an even number of them, and what they
turn comes to nothing. -/
structure SignsCancel (prime : BitVec 64) (low : BitVec 8) (bytes : List (BitVec 8)) : Prop where
  even : ¬ OddHigh bytes
  turned_dvd : (2 ^ 56 : Int) ∣ turned prime low bytes

instance (prime : BitVec 64) (low : BitVec 8) (bytes : List (BitVec 8)) :
    Decidable (SignsCancel prime low bytes) :=
  decidable_of_iff (¬ OddHigh bytes ∧ (2 ^ 56 : Int) ∣ turned prime low bytes)
    ⟨fun h => ⟨h.1, h.2⟩, fun h => ⟨h.even, h.turned_dvd⟩⟩

section Step

variable {prime s t : BitVec 64} {c : BitVec 8}

theorem eq_iff_centre (hlow : lowByte s = lowByte t) : s = t ↔ centre s = centre t := by
  constructor
  · rintro rfl
    rfl
  · intro hcentre
    have hlow := congrArg BitVec.toNat hlow
    simp only [lowByte, BitVec.toNat_setWidth] at hlow
    simp only [centre] at hcentre
    exact BitVec.eq_of_toNat_eq (by omega)

/-- Two centres are the same where they are modulo `2 ^ 57`. -/
theorem centre_eq_iff : centre s = centre t ↔ centre s ≡ centre t [ZMOD 2 ^ 57] := by
  have hs := s.isLt
  have ht := t.isLt
  unfold centre Int.ModEq
  omega

theorem centre_odd (s : BitVec 64) : centre s % 2 = 1 := by
  unfold centre
  omega

theorem lowByte_mul (s prime : BitVec 64) : lowByte (s * prime) = lowByte s * lowByte prime :=
  BitVec.setWidth_mul _ _ (by decide)

theorem lowByte_signExtend (c : BitVec 8) : lowByte (c.signExtend 64) = c := by
  ext i hi
  have hi' : i < 64 := by omega
  simp [lowByte, BitVec.getElem_signExtend, hi, hi']

theorem lowByte_setWidth (c : BitVec 8) : lowByte (c.setWidth 64) = c := by
  ext i hi
  simp [lowByte]

theorem lowByte_absorb {x : BitVec 64} (hx : lowByte x = c) :
    lowByte ((s ^^^ x) * prime) = (lowByte s ^^^ c) * lowByte prime := by
  rw [lowByte_mul, ← hx]
  simp [lowByte]

theorem centre_mul (s prime : BitVec 64) :
    centre (s * prime) ≡ prime.toNat * centre s + share prime (lowByte s) [ZMOD 2 ^ 57] := by
  set high := s.toNat / 256 with hhigh
  have hlow : (lowByte s).toNat = s.toNat % 256 := BitVec.toNat_setWidth _ _
  have hsplit : s.toNat * prime.toNat =
      (lowByte s).toNat * prime.toNat + 256 * (high * prime.toNat) := by
    rw [hlow, hhigh, ← Nat.mul_assoc, ← Nat.add_mul, Nat.mod_add_div]
  have hdiv : (s * prime).toNat / 256 =
      ((lowByte s).toNat * prime.toNat / 256 + high * prime.toNat) % 2 ^ 56 := by
    have hpow : 2 ^ 64 = 256 * 2 ^ 56 := by decide
    rw [BitVec.toNat_mul, hsplit, hpow, Nat.mod_mul_right_div_self,
      Nat.add_mul_div_left _ _ (by decide : 0 < 256)]
  have hmod : ∀ n : Nat, (2 * ((n % 2 ^ 56 : Nat) : Int) + 1) ≡ 2 * n + 1 [ZMOD 2 ^ 57] := by
    intro n
    unfold Int.ModEq
    omega
  unfold centre share
  rw [hdiv, ← hhigh]
  have heq : (prime.toNat : Int) * (2 * (high : Int) + 1) +
      (2 * ((lowByte s).toNat * prime.toNat / 256 : Nat) + 1 - prime.toNat) =
        2 * ((lowByte s).toNat * prime.toNat / 256 + high * prime.toNat : Nat) + 1 := by
    push_cast
    ring
  rw [heq]
  exact hmod _

/-- A byte alone does not reach the centre. -/
theorem centre_xor_setWidth (s : BitVec 64) (c : BitVec 8) :
    centre (s ^^^ c.setWidth 64) = centre s := by
  have hc : c.toNat % 2 ^ 64 / 2 ^ 8 = 0 := by
    have hlt := c.isLt
    omega
  have hdiv : (s ^^^ c.setWidth 64).toNat / 2 ^ 8 = s.toNat / 2 ^ 8 := by
    rw [BitVec.toNat_xor, BitVec.toNat_setWidth, Nat.xor_div_two_pow, hc, Nat.xor_zero]
  exact congrArg (fun n : Nat => 2 * (n : Int) + 1) hdiv

/-- The sign of a high byte turns the centre. -/
theorem centre_xor_signExtend (s : BitVec 64) (hc : c.msb = true) :
    centre (s ^^^ c.signExtend 64) = 2 ^ 57 - centre s := by
  rw [BitVec.signExtend_eq_not_setWidth_not_of_msb_true hc, ← BitVec.not_xor_right,
    ← centre_xor_setWidth s (~~~c)]
  generalize s ^^^ (~~~c).setWidth 64 = t
  have ht := t.isLt
  unfold centre
  rw [BitVec.toNat_not]
  omega

/-- The sign that a byte gives the centre. -/
def turn (c : BitVec 8) : Int := if c.msb then -1 else 1

theorem centre_signExtend_step (s prime : BitVec 64) (c : BitVec 8) :
    centre ((s ^^^ c.signExtend 64) * prime) ≡
      prime.toNat * (turn c * centre s) + share prime (lowByte s ^^^ c) [ZMOD 2 ^ 57] := by
  have hlow : lowByte (s ^^^ c.signExtend 64) = lowByte s ^^^ c :=
    (BitVec.setWidth_xor).trans (congrArg (lowByte s ^^^ ·) (lowByte_signExtend c))
  have hcentre : centre (s ^^^ c.signExtend 64) ≡ turn c * centre s [ZMOD 2 ^ 57] := by
    unfold turn
    cases hc : c.msb with
    | false =>
      rw [BitVec.signExtend_eq_setWidth_of_msb_false hc, centre_xor_setWidth, if_neg (by decide),
        Int.one_mul]
    | true =>
      rw [centre_xor_signExtend s hc, if_pos rfl]
      unfold Int.ModEq
      omega
  rw [← hlow]
  exact (centre_mul _ prime).trans ((hcentre.mul_left _).add_right _)

theorem centre_setWidth_step (t prime : BitVec 64) (c : BitVec 8) :
    centre ((t ^^^ c.setWidth 64) * prime) ≡
      prime.toNat * centre t + share prime (lowByte t ^^^ c) [ZMOD 2 ^ 57] := by
  have hlow : lowByte (t ^^^ c.setWidth 64) = lowByte t ^^^ c :=
    (BitVec.setWidth_xor).trans (congrArg (lowByte t ^^^ ·) (lowByte_setWidth c))
  rw [← hlow, ← centre_xor_setWidth t c]
  exact centre_mul _ prime

end Step

/-! ## A run over the bytes -/

section Run

variable {prime s t : BitVec 64} {c : BitVec 8} {bytes cs : List (BitVec 8)}

/-- The sign that the bytes give the centre together. -/
def turns (bytes : List (BitVec 8)) : Int := if OddHigh bytes then -1 else 1

theorem turns_cons (c : BitVec 8) (cs : List (BitVec 8)) : turns (c :: cs) = turn c * turns cs := by
  unfold turn
  cases hc : c.msb with
  | false =>
    have hodd : OddHigh (c :: cs) ↔ OddHigh cs := by
      rw [OddHigh, OddHigh, List.countP_cons_of_neg (by simp [hc])]
    simp [turns, hodd]
  | true =>
    have hodd : OddHigh (c :: cs) ↔ ¬ OddHigh cs := by
      rw [OddHigh, OddHigh, List.countP_cons_of_pos hc]
      omega
    by_cases hcs : OddHigh cs
    · simp [turns, hodd, hcs]
    · simp [turns, hodd, hcs]

theorem one_sub_turns (cs : List (BitVec 8)) (x : Int) :
    x * (1 - turns cs) = 2 * if OddHigh cs then x else 0 := by
  unfold turns
  split_ifs
  · ring
  · ring

/-- The two runs have the same lowest byte, and their centres differ by what is turned. -/
theorem hashFrom_run (prime : BitVec 64) (bytes : List (BitVec 8))
    (hlow : lowByte s = lowByte t) :
    lowByte (hashFrom (·.signExtend 64) prime s bytes) =
        lowByte (hashFrom (·.setWidth 64) prime t bytes) ∧
      centre (hashFrom (·.setWidth 64) prime t bytes) -
          centre (hashFrom (·.signExtend 64) prime s bytes) ≡
        prime.toNat ^ bytes.length * (centre t - turns bytes * centre s) +
          2 * turned prime (lowByte t) bytes [ZMOD 2 ^ 57] := by
  induction bytes generalizing s t with
  | nil =>
    refine ⟨hlow, ?_⟩
    have heq : centre t - centre s = (prime.toNat : Int) ^ ([] : List (BitVec 8)).length *
        (centre t - turns [] * centre s) + 2 * turned prime (lowByte t) [] := by
      simp [turns, OddHigh, turned]
    exact heq ▸ Int.ModEq.refl _
  | cons c cs ih =>
    have hs := centre_signExtend_step s prime c
    have ht := centre_setWidth_step t prime c
    have hlows : lowByte ((s ^^^ c.signExtend 64) * prime) =
        (lowByte t ^^^ c) * lowByte prime :=
      hlow ▸ lowByte_absorb (lowByte_signExtend c)
    have hlowt : lowByte ((t ^^^ c.setWidth 64) * prime) = (lowByte t ^^^ c) * lowByte prime :=
      lowByte_absorb (lowByte_setWidth c)
    obtain ⟨hlow', hcentre⟩ := ih (hlows.trans hlowt.symm)
    refine ⟨hlow', hcentre.trans ?_⟩
    rw [hlow] at hs
    rw [hlowt, turned, turns_cons, List.length_cons]
    set k := share prime (lowByte t ^^^ c)
    set rest := turned prime ((lowByte t ^^^ c) * lowByte prime) cs
    set n := cs.length
    have hturned := one_sub_turns cs (k * (prime.toNat : Int) ^ n)
    have heq : (prime.toNat : Int) ^ n * ((prime.toNat * centre t + k) -
        turns cs * (prime.toNat * (turn c * centre s) + k)) + 2 * rest =
          (prime.toNat : Int) ^ (n + 1) * (centre t - turn c * turns cs * centre s) +
            2 * ((if OddHigh cs then k * (prime.toNat : Int) ^ n else 0) + rest) := by
      rw [mul_add 2, ← hturned]
      ring
    rw [← heq]
    exact ((ht.sub (hs.mul_left _)).mul_left _).add_right _

theorem two_dvd_turned (hprime : prime.toNat % 2 = 1) (low : BitVec 8)
    (bytes : List (BitVec 8)) : (2 : Int) ∣ turned prime low bytes := by
  induction bytes generalizing low with
  | nil => exact Int.dvd_zero 2
  | cons c cs ih =>
    have hshare : (2 : Int) ∣ share prime (low ^^^ c) := by
      unfold share
      omega
    refine Int.dvd_add ?_ (ih _)
    split_ifs
    · exact hshare.mul_right _
    · exact Int.dvd_zero 2

/-- An odd number of turns leaves an odd difference. -/
theorem centre_mul_pow_odd (hprime : prime.toNat % 2 = 1) (s : BitVec 64) (n : Nat) :
    Odd ((prime.toNat : Int) ^ n * centre s) := by
  have hodd : Odd (prime.toNat : Int) := Int.odd_iff.mpr (by omega)
  exact hodd.pow.mul (Int.odd_iff.mpr (centre_odd s))

/-- **Signed bytes have the hash of unsigned ones** exactly when their signs cancel out. -/
theorem hashFrom_signExtend_eq_iff (hprime : prime.toNat % 2 = 1) (s : BitVec 64)
    (bytes : List (BitVec 8)) :
    hashFrom (·.signExtend 64) prime s bytes = hashFrom (·.setWidth 64) prime s bytes ↔
      SignsCancel prime (lowByte s) bytes := by
  obtain ⟨hlow, hcentre⟩ := hashFrom_run prime bytes (rfl : lowByte s = lowByte s)
  rw [eq_iff_centre hlow, centre_eq_iff, Int.modEq_iff_dvd, hcentre.dvd_iff]
  by_cases hodd : OddHigh bytes
  · refine iff_of_false (fun hdvd => ?_) fun h => h.even hodd
    have hturns : (prime.toNat : Int) ^ bytes.length * (centre s - turns bytes * centre s) +
        2 * turned prime (lowByte s) bytes = 2 * ((prime.toNat : Int) ^ bytes.length * centre s +
          turned prime (lowByte s) bytes) := by
      rw [turns, if_pos hodd]
      ring
    rw [hturns] at hdvd
    have hsum := centre_mul_pow_odd hprime s bytes.length
    have hturned := two_dvd_turned hprime (lowByte s) bytes
    rw [Int.odd_iff] at hsum
    omega
  · have hturns : (prime.toNat : Int) ^ bytes.length * (centre s - turns bytes * centre s) +
        2 * turned prime (lowByte s) bytes = 2 * turned prime (lowByte s) bytes := by
      rw [turns, if_neg hodd]
      ring
    rw [hturns]
    constructor
    · intro hdvd
      exact ⟨hodd, by omega⟩
    · intro h
      have hdvd := h.turned_dvd
      omega

/-- Where no byte is high, there is no sign. -/
theorem signsCancel_of_ascii (hascii : ∀ c ∈ bytes, c.msb = false) (low : BitVec 8) :
    SignsCancel prime low bytes := by
  have hnone : ∀ cs, (∀ c ∈ cs, BitVec.msb c = false) → ¬ OddHigh cs := by
    intro cs hcs
    rw [OddHigh, List.countP_eq_zero.mpr fun c hc => by simp [hcs c hc]]
    decide
  refine ⟨hnone bytes hascii, ?_⟩
  induction bytes generalizing low with
  | nil => exact Int.dvd_zero _
  | cons c cs ih =>
    obtain ⟨-, hcs⟩ := List.forall_mem_cons.mp hascii
    rw [turned, if_neg (hnone cs hcs), Int.zero_add]
    exact ih hcs _

end Run

end Fnv1a

end Infra
