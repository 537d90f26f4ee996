import Mathlib.Algebra.Order.Ring.Nat
import Mathlib.Logic.Basic
import Mathlib.Logic.ExistsUnique

/-!
# Painting rectangles

An image is a function of column and row. `Rect.paint` takes the pixels of a rectangle from one
image and all others from another, which is what a drawing operation does to a screen. Two
operations in a row that take their pixels from one image are one operation on the union
(`paint_paint`); a loop over columns or rows is put together with it one step at a time. Four
rectangles around a fifth are a frame (`paint_frame`), whatever their sizes, zero included.

`Rect.cell` is the place of pixel `k` when a rectangle is written row by row, over and over:
* `cell_succ`: where the next pixel goes.
* `existsUnique_cell`: the first `w * h` of them are every pixel of the rectangle once.
-/

namespace Stm32F407.Lib

variable {α : Type*}

/-- `w` columns from `x` on and `h` rows from `y` on. -/
structure Rect where
  x : Nat
  y : Nat
  w : Nat
  h : Nat
deriving DecidableEq, Repr

namespace Rect

/-- The pixel at column `px` and row `py` is in the rectangle. -/
def Has (r : Rect) (px py : Nat) : Prop :=
  (r.x ≤ px ∧ px < r.x + r.w) ∧ r.y ≤ py ∧ py < r.y + r.h

instance (r : Rect) (px py : Nat) : Decidable (r.Has px py) :=
  inferInstanceAs (Decidable (_ ∧ _))

@[simp] theorem has_rect {x y w h px py : Nat} :
    (⟨x, y, w, h⟩ : Rect).Has px py ↔ (x ≤ px ∧ px < x + w) ∧ y ≤ py ∧ py < y + h := Iff.rfl

/-- The image `g` with the pixels of the rectangle taken from `f`. -/
def paint (r : Rect) (f g : Nat → Nat → α) : Nat → Nat → α :=
  fun px py => if r.Has px py then f px py else g px py

variable {r s t : Rect} {f g : Nat → Nat → α} {px py : Nat}

theorem paint_empty (h : r.w = 0 ∨ r.h = 0) : r.paint f g = g := by
  funext px py
  exact if_neg (by unfold Has; omega)

theorem paint_congr {f' : Nat → Nat → α} (h : ∀ px py, r.Has px py → f px py = f' px py) :
    r.paint f g = r.paint f' g := by
  funext px py
  unfold paint
  split
  · rename_i hr
    exact h px py hr
  · rfl

/-- Two images give the same picture iff they agree on the rectangle. -/
theorem paint_eq_iff {f' : Nat → Nat → α} :
    r.paint f g = r.paint f' g ↔ ∀ px py, r.Has px py → f px py = f' px py := by
  constructor
  · intro h px py hr
    have hp := congrFun (congrFun h px) py
    rwa [paint, paint, if_pos hr, if_pos hr] at hp
  · exact paint_congr

theorem paint_paint (h : ∀ px py, t.Has px py ↔ s.Has px py ∨ r.Has px py) :
    s.paint f (r.paint f g) = t.paint f g := by
  funext px py
  unfold paint
  by_cases hs : s.Has px py
  · rw [if_pos hs, if_pos ((h px py).2 (.inl hs))]
  · rw [if_neg hs]
    exact if_congr ((h px py).trans (or_iff_right hs)).symm rfl rfl

/-- A row, from its first pixel on. -/
theorem paint_column {x y n : Nat} :
    (⟨x + 1, y, n, 1⟩ : Rect).paint f ((⟨x, y, 1, 1⟩ : Rect).paint f g) =
      (⟨x, y, n + 1, 1⟩ : Rect).paint f g := by
  apply paint_paint
  intro px py
  simp only [has_rect]
  omega

/-- A rectangle, from its first row on. -/
theorem paint_row {x y w n : Nat} :
    (⟨x, y + 1, w, n⟩ : Rect).paint f ((⟨x, y, w, 1⟩ : Rect).paint f g) =
      (⟨x, y, w, n + 1⟩ : Rect).paint f g := by
  apply paint_paint
  intro px py
  simp only [has_rect]
  omega

/-- Above, below, right and left of a rectangle of `w` by `h` pixels: the pixels of the larger
rectangle that are not in the smaller one. -/
theorem paint_frame {x y w h bw bh : Nat} (px py : Nat) :
    (⟨x, y + bh, bw, h⟩ : Rect).paint f
        ((⟨x + w + bw, y + bh, bw, h⟩ : Rect).paint f
          ((⟨x, y + h + bh, w + 2 * bw, bh⟩ : Rect).paint f
            ((⟨x, y, w + 2 * bw, bh⟩ : Rect).paint f g))) px py =
      if (⟨x, y, w + 2 * bw, h + 2 * bh⟩ : Rect).Has px py ∧
        ¬ (⟨x + bw, y + bh, w, h⟩ : Rect).Has px py then f px py else g px py := by
  unfold paint
  rw [← ite_or, ← ite_or, ← ite_or]
  simp only [has_rect]
  exact if_congr (by omega) rfl rfl

/-! ## Row by row -/

/-- The place of pixel `k`. -/
def cell (r : Rect) (k : Nat) : Nat × Nat := (r.x + k % r.w, r.y + k / r.w % r.h)

theorem cell_of_lt {k : Nat} (h : k < r.w * r.h) : r.cell k = (r.x + k % r.w, r.y + k / r.w) := by
  rw [cell, Nat.mod_eq_of_lt (Nat.div_lt_of_lt_mul h)]

theorem cell_zero : r.cell 0 = (r.x, r.y) := by
  rw [cell, Nat.zero_mod, Nat.zero_div, Nat.zero_mod, Nat.add_zero, Nat.add_zero]

/-- Counting on, by remainder and quotient. -/
theorem add_one_mod_div {m : Nat} (hm : 0 < m) (n : Nat) :
    (n % m + 1 = m → (n + 1) % m = 0 ∧ (n + 1) / m = n / m + 1) ∧
      (n % m + 1 ≠ m → (n + 1) % m = n % m + 1 ∧ (n + 1) / m = n / m) := by
  have hn := Nat.div_add_mod n m
  have hlt := Nat.mod_lt n hm
  constructor
  · intro hlast
    have hnext : n + 1 = m * (n / m + 1) := by
      rw [Nat.mul_add, Nat.mul_one]
      omega
    rw [hnext, Nat.mul_mod_right, Nat.mul_div_cancel_left _ hm]
    exact ⟨rfl, rfl⟩
  · intro hne
    have hnext : n + 1 = m * (n / m) + (n % m + 1) := by omega
    have hsmall : n % m + 1 < m := by omega
    constructor
    · rw [hnext, Nat.mul_add_mod, Nat.mod_eq_of_lt hsmall]
    · rw [hnext, Nat.mul_add_div hm, Nat.div_eq_of_lt hsmall, Nat.add_zero]

/-- Pixel `k + 1` is right of pixel `k`, or at the start of the next row. -/
theorem cell_succ (hw : 0 < r.w) (hh : 0 < r.h) (k : Nat) :
    r.cell (k + 1) =
      if (r.cell k).1 + 1 = r.x + r.w then
        (r.x, if (r.cell k).2 + 1 = r.y + r.h then r.y else (r.cell k).2 + 1)
      else ((r.cell k).1 + 1, (r.cell k).2) := by
  obtain ⟨hedge, hinner⟩ := add_one_mod_div hw k
  obtain ⟨hlast, hnext⟩ := add_one_mod_div hh (k / r.w)
  unfold cell
  dsimp only
  by_cases hx : k % r.w + 1 = r.w
  · rw [if_pos (by omega), (hedge hx).1, (hedge hx).2]
    by_cases hy : k / r.w % r.h + 1 = r.h
    · rw [if_pos (by omega), (hlast hy).1]
      rfl
    · rw [if_neg (by omega), (hnext hy).1]
      rfl
  · rw [if_neg (by omega), (hinner hx).1, (hinner hx).2]
    rfl

/-- The first `w * h` pixels are every pixel of the rectangle once. -/
theorem existsUnique_cell (h : r.Has px py) : ∃! k, k < r.w * r.h ∧ r.cell k = (px, py) := by
  obtain ⟨⟨hx, hxw⟩, hy, hyh⟩ := h
  have hcol : px - r.x < r.w := by omega
  have hw : 0 < r.w := by omega
  have hk : r.w * (py - r.y) + (px - r.x) < r.w * r.h := by
    have hrow : r.w * (py - r.y + 1) ≤ r.w * r.h := Nat.mul_le_mul_left r.w (by omega)
    rw [Nat.mul_add, Nat.mul_one] at hrow
    omega
  refine ⟨r.w * (py - r.y) + (px - r.x), ⟨hk, ?_⟩, ?_⟩
  · rw [cell_of_lt hk, Nat.mul_add_mod, Nat.mod_eq_of_lt hcol, Nat.mul_add_div hw,
      Nat.div_eq_of_lt hcol, Prod.mk.injEq]
    omega
  · rintro k ⟨hlt, hcell⟩
    rw [cell_of_lt hlt, Prod.mk.injEq] at hcell
    obtain ⟨rfl, rfl⟩ := hcell
    rw [Nat.add_sub_cancel_left, Nat.add_sub_cancel_left, Nat.div_add_mod]

end Rect

end Stm32F407.Lib
