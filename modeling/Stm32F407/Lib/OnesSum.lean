import Mathlib.Algebra.Order.Ring.Nat
import Mathlib.Data.Nat.ModEq

/-!
# Ones' complement sums of 16-bit words

A sum of words in ones' complement is the sum of their values with every carry added back at the
bottom. That is a residue modulo `2^16 - 1`, except that 0 is only the sum of zeros: `wrap16` is the
normal form, and `wrap16_eq_iff` says when two values have the same one.

* `fold16_fold16`: adding the upper half of a 32-bit accumulator to the lower one twice is `wrap16`.
* `swap16_wrap16`: exchanging the bytes of a sum is multiplying what was summed by 256, so doing it
  twice does nothing.
* `sum16_append`: the words of `xs ++ ys` are those of `xs` and those of `ys`, the latter with their
  bytes exchanged when `xs` ends in the middle of a word.
-/

namespace Stm32F407.Lib

/-- The sum of ones' complement words whose values add up to `n`. -/
def wrap16 (n : Nat) : Nat := if n = 0 then 0 else (n - 1) % 65535 + 1

/-- The upper half of an accumulator added to the lower one. -/
def fold16 (u : Nat) : Nat := u / 2 ^ 16 + u % 2 ^ 16

/-- The two bytes of a word exchanged. -/
def swap16 (w : Nat) : Nat := w % 2 ^ 8 * 2 ^ 8 + w / 2 ^ 8 % 2 ^ 8

/-- The sum of the words of `xs`, the first byte of each the low one; a last byte alone is a low
byte. -/
def sum16 : List UInt8 → Nat
  | [] => 0
  | [a] => a.toNat
  | a :: b :: xs => a.toNat + 256 * b.toNat + sum16 xs

variable {a b : Nat}

@[simp] theorem wrap16_zero : wrap16 0 = 0 := rfl

/-- What a sum is: 0, or the residue between 1 and `2^16 - 1`. -/
theorem wrap16_cases (n : Nat) : n = 0 ∧ wrap16 n = 0 ∨
    0 < n ∧ 0 < wrap16 n ∧ wrap16 n ≤ 65535 ∧ wrap16 n % 65535 = n % 65535 := by
  unfold wrap16
  split_ifs with h
  · exact Or.inl ⟨h, rfl⟩
  · exact Or.inr (by omega)

theorem wrap16_le (n : Nat) : wrap16 n ≤ 65535 := by
  have := wrap16_cases n
  omega

theorem wrap16_of_le (h : a ≤ 65535) : wrap16 a = a := by
  have := wrap16_cases a
  omega

/-- Two values have the same sum iff they are congruent and both zero or both not. -/
theorem wrap16_eq_iff : wrap16 a = wrap16 b ↔ a % 65535 = b % 65535 ∧ (a = 0 ↔ b = 0) := by
  have ha := wrap16_cases a
  have hb := wrap16_cases b
  constructor
  · intro h
    refine ⟨by omega, by omega, by omega⟩
  · rintro ⟨h, h0, h0'⟩
    omega

/-- A sum that reads as all ones. -/
theorem wrap16_eq_max_iff : wrap16 a = 65535 ↔ a % 65535 = 0 ∧ 0 < a := by
  have := wrap16_cases a
  omega

theorem wrap16_wrap16_add (a b : Nat) : wrap16 (wrap16 a + b) = wrap16 (a + b) := by
  have := wrap16_cases a
  rw [wrap16_eq_iff]
  omega

theorem wrap16_mul_congr (h : wrap16 a = wrap16 b) (k : Nat) :
    wrap16 (k * a) = wrap16 (k * b) := by
  rw [wrap16_eq_iff] at h ⊢
  refine ⟨Nat.ModEq.mul_left k h.1, ?_⟩
  rw [Nat.mul_eq_zero, Nat.mul_eq_zero, h.2]

theorem wrap16_add_congr (h : wrap16 a = wrap16 b) (k : Nat) :
    wrap16 (k + a) = wrap16 (k + b) := by
  rw [wrap16_eq_iff] at h ⊢
  omega

/-- A shift by a whole word is no shift. -/
theorem wrap16_shift (a b : Nat) : wrap16 (a + 256 * (256 * b)) = wrap16 (a + b) := by
  rw [wrap16_eq_iff]
  omega

theorem fold16_eq (h : a ≤ 2 * 65535) : fold16 a = wrap16 a := by
  have := wrap16_cases a
  unfold fold16
  omega

theorem fold16_fold16 (h : a < 2 ^ 32) : fold16 (fold16 a) = wrap16 a := by
  have hle : fold16 a ≤ 2 * 65535 := by
    unfold fold16
    omega
  rw [fold16_eq hle, wrap16_eq_iff]
  unfold fold16
  omega

theorem swap16_eq (h : a ≤ 65535) : swap16 a = wrap16 (256 * a) := by
  have hhi : a / 2 ^ 8 % 2 ^ 8 = a / 2 ^ 8 := Nat.mod_eq_of_lt (by omega)
  have hle : swap16 a ≤ 65535 := by
    unfold swap16
    omega
  rw [← wrap16_of_le hle, wrap16_eq_iff]
  unfold swap16
  rw [hhi]
  omega

theorem swap16_wrap16 (a : Nat) : swap16 (wrap16 a) = wrap16 (256 * a) := by
  rw [swap16_eq (wrap16_le a)]
  exact wrap16_mul_congr (wrap16_of_le (wrap16_le a)) 256

/-- One byte in front shifts the others by a byte. -/
theorem sum16_cons (x : UInt8) (ys : List UInt8) :
    wrap16 (sum16 (x :: ys)) = wrap16 (x.toNat + 256 * sum16 ys) := by
  induction ys using sum16.induct generalizing x with
  | case1 => rfl
  | case2 y => simp [sum16]
  | case3 y z ys ih =>
    have hz := ih z
    rw [wrap16_eq_iff] at hz ⊢
    simp only [sum16]
    omega

/-- **The words of a concatenation.** -/
theorem sum16_append (xs ys : List UInt8) :
    wrap16 (sum16 (xs ++ ys)) =
      wrap16 (sum16 xs + (if xs.length % 2 = 0 then 1 else 256) * sum16 ys) := by
  induction xs using sum16.induct with
  | case1 => simp [sum16]
  | case2 x => simpa [sum16] using sum16_cons x ys
  | case3 x y xs ih =>
    have hlen : (x :: y :: xs).length % 2 = xs.length % 2 := by
      simp only [List.length_cons]
      omega
    rw [hlen, List.cons_append, List.cons_append, sum16, sum16, Nat.add_assoc _ (sum16 xs)]
    exact wrap16_add_congr ih _

/-- Behind an even number of bytes nothing shifts. -/
theorem sum16_append_of_even {xs : List UInt8} (h : xs.length % 2 = 0) (ys : List UInt8) :
    sum16 (xs ++ ys) = sum16 xs + sum16 ys := by
  induction xs using sum16.induct with
  | case1 => simp [sum16]
  | case2 x => simp at h
  | case3 x y xs ih =>
    have hlen : xs.length % 2 = 0 := by
      simp only [List.length_cons] at h
      omega
    rw [List.cons_append, List.cons_append, sum16, sum16, ih hlen, ← Nat.add_assoc]

theorem sum16_le (xs : List UInt8) : 2 * sum16 xs ≤ 65535 * (xs.length + 1) := by
  induction xs using sum16.induct with
  | case1 => simp [sum16]
  | case2 x =>
    have := x.toNat_lt
    simp only [sum16, List.length_singleton]
    omega
  | case3 x y xs ih =>
    have := x.toNat_lt
    have := y.toNat_lt
    simp only [sum16, List.length_cons] at *
    omega

end Stm32F407.Lib
