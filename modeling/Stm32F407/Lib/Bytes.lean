import Mathlib.Algebra.Order.Ring.Nat
import Mathlib.Data.List.Basic
import Mathlib.Logic.Function.Basic

/-!
# Reading and writing runs of a memory

`blit f a xs` is a memory after `memcpy(&f[a], xs, xs.length)` and `readRun f a n` are its `n` cells
from `a`. The lemmas say which cells a write changes and what a read sees after it.

In a memory of bytes `readHalf` and `writeHalf` are the accesses of a `uint16_t`, the low byte first.
-/

namespace Stm32F407.Lib

variable {α : Type*}

/-- The memory with the values `xs` stored from `a` on. -/
def blit (f : Nat → α) (a : Nat) (xs : List α) : Nat → α :=
  fun i => if a ≤ i then (xs[i - a]?).getD (f i) else f i

/-- The `n` cells from `a` on. -/
def readRun (f : Nat → α) (a n : Nat) : List α := (List.range n).map fun i => f (a + i)

@[simp] theorem readRun_length (f : Nat → α) (a n : Nat) : (readRun f a n).length = n := by
  simp [readRun]

theorem readRun_getElem? (f : Nat → α) {a n i : Nat} (h : i < n) :
    (readRun f a n)[i]? = some (f (a + i)) := by
  simp [readRun, h]

/-- A cell of the stored run. -/
theorem blit_of_lt {f : Nat → α} {a i : Nat} {xs : List α} (h : i < xs.length) :
    blit f a xs (a + i) = xs[i] := by
  simp [blit, h]

/-- A cell outside the stored run. -/
theorem blit_of_out {f : Nat → α} {a i : Nat} {xs : List α} (h : i < a ∨ a + xs.length ≤ i) :
    blit f a xs i = f i := by
  unfold blit
  split
  · rw [List.getElem?_eq_none (by omega), Option.getD_none]
  · rfl

/-- Two writes one after the other store the concatenation. -/
theorem blit_append (f : Nat → α) (a : Nat) (xs ys : List α) :
    blit (blit f a xs) (a + xs.length) ys = blit f a (xs ++ ys) := by
  funext i
  unfold blit
  by_cases h1 : a + xs.length ≤ i
  · rw [if_pos h1, if_pos (by omega), if_pos (by omega), List.getElem?_append_right (by omega),
      List.getElem?_eq_none (show xs.length ≤ i - a by omega), Option.getD_none, Nat.sub_sub]
  · rw [if_neg h1]
    split
    · rw [List.getElem?_append_left (by omega)]
    · rfl

/-- Reading back exactly what was stored. -/
theorem readRun_blit_self (f : Nat → α) (a : Nat) (xs : List α) :
    readRun (blit f a xs) a xs.length = xs := by
  apply List.ext_getElem?
  intro i
  by_cases h : i < xs.length
  · rw [readRun_getElem? _ h, blit_of_lt h, List.getElem?_eq_getElem h]
  · rw [List.getElem?_eq_none (by simp; omega), List.getElem?_eq_none (by omega)]

/-- Two memories that agree on the run read the same. -/
theorem readRun_congr {f g : Nat → α} {a n : Nat} (h : ∀ i, i < n → f (a + i) = g (a + i)) :
    readRun f a n = readRun g a n :=
  List.map_congr_left fun i hi => h i (List.mem_range.mp hi)

/-- A write beside the run is not seen by it. -/
theorem readRun_blit_of_apart {f : Nat → α} {a b n : Nat} {xs : List α}
    (h : b + n ≤ a ∨ a + xs.length ≤ b) : readRun (blit f a xs) b n = readRun f b n :=
  readRun_congr fun i hi => blit_of_out (by omega)

/-- A write over the start of the run leaves it as it was iff it stores the values already there. -/
theorem readRun_blit_eq_iff {f : Nat → α} {a n : Nat} {xs : List α} :
    readRun (blit f a xs) a n = readRun f a n ↔
      ∀ i, i < n → i < xs.length → xs[i]? = some (f (a + i)) := by
  constructor
  · intro h i hn hx
    have := congrArg (fun l => l[i]?) h
    simp only [readRun_getElem? _ hn, blit_of_lt hx, Option.some.injEq] at this
    rw [List.getElem?_eq_getElem hx, this]
  · intro h
    refine readRun_congr fun i hi => ?_
    by_cases hx : i < xs.length
    · have := h i hi hx
      rw [List.getElem?_eq_getElem hx, Option.some.injEq] at this
      rw [blit_of_lt hx, this]
    · exact blit_of_out (by omega)

/-! ## Halfwords -/

/-- The halfword at `a`. -/
def readHalf (f : Nat → UInt8) (a : Nat) : UInt16 :=
  UInt16.ofNat ((f a).toNat + 256 * (f (a + 1)).toNat)

/-- The memory with the halfword `v` stored at `a`. -/
def writeHalf (f : Nat → UInt8) (a : Nat) (v : UInt16) : Nat → UInt8 :=
  Function.update (Function.update f a (UInt8.ofNat v.toNat)) (a + 1) (UInt8.ofNat (v.toNat / 256))

theorem readHalf_toNat (f : Nat → UInt8) (a : Nat) :
    (readHalf f a).toNat = (f a).toNat + 256 * (f (a + 1)).toNat := by
  have hlo := (f a).toNat_lt
  have hhi := (f (a + 1)).toNat_lt
  rw [readHalf, UInt16.toNat_ofNat', Nat.mod_eq_of_lt (by omega)]

theorem readHalf_eq_zero_iff (f : Nat → UInt8) (a : Nat) :
    readHalf f a = 0 ↔ f a = 0 ∧ f (a + 1) = 0 := by
  rw [← UInt16.toNat_inj, ← UInt8.toNat_inj, ← UInt8.toNat_inj, readHalf_toNat, UInt16.toNat_zero,
    UInt8.toNat_zero]
  omega

/-- Two memories that agree on the two bytes. -/
theorem readHalf_congr {f g : Nat → UInt8} {a : Nat} (h : f a = g a) (h' : f (a + 1) = g (a + 1)) :
    readHalf f a = readHalf g a := by
  rw [readHalf, h, h']
  rfl

theorem readHalf_writeHalf (f : Nat → UInt8) (a : Nat) (v : UInt16) :
    readHalf (writeHalf f a v) a = v := by
  have hv := v.toNat_lt
  have hlo : writeHalf f a v a = UInt8.ofNat v.toNat := by
    rw [writeHalf, Function.update_of_ne (by omega), Function.update_self]
  have hhi : writeHalf f a v (a + 1) = UInt8.ofNat (v.toNat / 256) := Function.update_self ..
  rw [← UInt16.toNat_inj, readHalf_toNat, hlo, hhi, UInt8.toNat_ofNat', UInt8.toNat_ofNat']
  omega

/-- A byte outside the stored halfword. -/
theorem writeHalf_of_out {f : Nat → UInt8} {a i : Nat} {v : UInt16} (h : i < a ∨ a + 2 ≤ i) :
    writeHalf f a v i = f i := by
  rw [writeHalf, Function.update_of_ne (by omega), Function.update_of_ne (by omega)]

/-- A write beside the halfword is not seen by it. -/
theorem readHalf_writeHalf_of_apart {f : Nat → UInt8} {a b : Nat} {v : UInt16}
    (h : b + 2 ≤ a ∨ a + 2 ≤ b) : readHalf (writeHalf f a v) b = readHalf f b :=
  readHalf_congr (writeHalf_of_out (by omega)) (writeHalf_of_out (by omega))

/-- `for (k = 0; k < n; k++) f[k] = v` over the halfwords from `a` on. -/
def fillHalves (f : Nat → UInt8) (a : Nat) (v : UInt16) : Nat → Nat → UInt8
  | 0 => f
  | n + 1 => writeHalf (fillHalves f a v n) (a + 2 * n) v

/-- A loop that clears halfwords clears their bytes, and no others. -/
theorem fillHalves_zero (f : Nat → UInt8) (a n i : Nat) :
    fillHalves f a 0 n i = if a ≤ i ∧ i < a + 2 * n then 0 else f i := by
  induction n with
  | zero => rw [fillHalves, if_neg (by omega)]
  | succ n ih =>
    rw [fillHalves]
    by_cases hin : a + 2 * n ≤ i ∧ i < a + 2 * n + 2
    · rw [if_pos (by omega)]
      rcases Nat.eq_or_lt_of_le hin.1 with hlo | hhi
      · rw [← hlo, writeHalf, Function.update_of_ne (by omega), Function.update_self]
        rfl
      · rw [show i = a + 2 * n + 1 by omega, writeHalf, Function.update_self]
        rfl
    · rw [writeHalf_of_out (by omega), ih]
      exact if_congr (by omega) rfl rfl

end Stm32F407.Lib
