import Mathlib.Algebra.Order.Group.Nat
import Mathlib.Data.Nat.Bitwise

/-!
# The bytes of a word

Masks, shifts and disjunctions of machine words as arithmetic on their values: `or_bytes` puts four
bytes together, `and_byte` takes one out in place. What is left of a byte-order argument is then
linear.

The bits of a word go over a serial line one at a time, most significant first, into a shift
register at the other end (`shiftIn`): after the whole width the register holds the word, whatever
it held before (`shiftIn_width`).
-/

namespace Stm32F407.Lib

/-- A disjunction of bytes at different places is their sum. -/
theorem or_bytes (a : Nat) {b c d : Nat} (hb : b < 2 ^ 8) (hc : c < 2 ^ 8) (hd : d < 2 ^ 8) :
    2 ^ 24 * a ||| 2 ^ 16 * b ||| 2 ^ 8 * c ||| d =
      2 ^ 24 * a + 2 ^ 16 * b + 2 ^ 8 * c + d := by
  rw [← Nat.two_pow_add_eq_or_of_lt (by omega : 2 ^ 16 * b < 2 ^ 24),
    show 2 ^ 24 * a + 2 ^ 16 * b = 2 ^ 16 * (2 ^ 8 * a + b) by omega,
    ← Nat.two_pow_add_eq_or_of_lt (by omega : 2 ^ 8 * c < 2 ^ 16),
    show 2 ^ 16 * (2 ^ 8 * a + b) + 2 ^ 8 * c = 2 ^ 8 * (2 ^ 8 * (2 ^ 8 * a + b) + c) by omega,
    ← Nat.two_pow_add_eq_or_of_lt hd]

/-- A mask over the byte at bit `k`. -/
theorem and_byte (x k : Nat) : x &&& 2 ^ k * 255 = 2 ^ k * (x / 2 ^ k % 2 ^ 8) := by
  apply Nat.eq_of_testBit_eq
  intro i
  rw [Nat.testBit_and, Nat.testBit_two_pow_mul, Nat.testBit_two_pow_mul, Nat.testBit_mod_two_pow,
    Nat.testBit_div_two_pow, show 255 = 2 ^ 8 - 1 from rfl, Nat.testBit_two_pow_sub_one]
  by_cases h : k ≤ i
  · rw [Nat.sub_add_cancel h]
    simp [h, Bool.and_comm]
  · simp [h]

/-- A byte by its number. -/
theorem toNat_eq_iff {a : BitVec 8} {i : Nat} (hi : i < 256) :
    a = BitVec.ofNat 8 i ↔ a.toNat = i := by
  rw [← BitVec.toNat_inj, BitVec.toNat_ofNat, Nat.mod_eq_of_lt hi]

/-! ## Shift registers -/

variable {w : Nat}

/-- One step of a register that is shifted and then counted up for a one. -/
theorem shiftConcat_eq (r : BitVec 8) (x : Bool) :
    (if x then (r <<< 1) + 1 else r <<< 1) = r.shiftConcat x := by
  apply BitVec.eq_of_toNat_eq
  cases x <;> simp [BitVec.toNat_add, BitVec.toNat_shiftLeft, BitVec.toNat_shiftConcat]

/-- The register `r` after the `n` most significant bits of `data` have been shifted into it. -/
def shiftIn : Nat → BitVec w → BitVec w → BitVec w
  | 0, _, r => r
  | n + 1, data, r => shiftIn n (data <<< 1) (r.shiftConcat data.msb)

theorem getLsbD_shiftIn {n : Nat} (hn : n ≤ w) (data r : BitVec w) {i : Nat} (hi : i < w) :
    (shiftIn n data r).getLsbD i =
      if i < n then data.getLsbD (w - n + i) else r.getLsbD (i - n) := by
  induction n generalizing data r with
  | zero => rfl
  | succ n ih =>
    rw [shiftIn, ih (by omega)]
    obtain hlt | rfl | hgt := Nat.lt_trichotomy i n
    · have hidx : w - n + i - 1 = w - (n + 1) + i := by omega
      have hpos : w - n ≠ 0 := by omega
      have hw : w - n + i < w := by omega
      rw [if_pos hlt, if_pos (by omega), BitVec.getLsbD_shiftLeft, hidx]
      simp [hw, hpos]
    · have hidx : w - (i + 1) + i = w - 1 := by omega
      rw [if_neg (Nat.lt_irrefl i), if_pos (Nat.lt_succ_self i), Nat.sub_self, hidx,
        BitVec.getLsbD_shiftConcat, BitVec.msb_eq_getLsbD_last]
      simp [show 0 < w by omega]
    · have hidx : i - n - 1 = i - (n + 1) := by omega
      rw [if_neg (by omega), if_neg (by omega), BitVec.getLsbD_shiftConcat, hidx,
        if_neg (by omega)]
      simp [show i - n < w by omega]

/-- After the whole width the register holds the word. -/
theorem shiftIn_width (data r : BitVec w) : shiftIn w data r = data := by
  apply BitVec.eq_of_getLsbD_eq
  intro i hi
  rw [getLsbD_shiftIn (Nat.le_refl w) data r hi, if_pos hi, Nat.sub_self, Nat.zero_add]

end Stm32F407.Lib
