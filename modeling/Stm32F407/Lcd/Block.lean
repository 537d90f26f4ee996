import Stm32F407.Lcd.Window

/-!
# Blocks and points: `TFTLCD_DrawBlock` and `TFTLCD_DrawPoint`

A block is drawn a row at a time, a point by setting the cursor to it. Both fill the rectangle they
should, but `TFTLCD_DrawPoint` converts its colour with `COLOR16` and `TFTLCD_DrawBlock` writes the
low 16 bits of the 24-bit colour as they are.

* `tftlcdDrawBlock_spec`: a block paints its rectangle with the low halves of the colours.
* `drawPoints_spec`: points, in any order and any number of times, paint it with the converted
  colours.
* `blockLaw_iff`: the two agree iff the low half of every colour of the block is its conversion.
-/

namespace Stm32F407.Lcd

open Stm32F407.Lib

/-- `TFTLCD_DrawPoint`. -/
def tftlcdDrawPoint (xPos yPos : BitVec 16) (color : BitVec 32) (p : Panel) : Panel :=
  ((tftlcdSetCursor xPos yPos p).reg cmdWriteColorCode).ram (rgbToU16 color)

/-- `TFTLCD_DrawBlock`. -/
def tftlcdDrawBlock (startXPos startYPos endXPos endYPos : BitVec 16)
    (colorBuff : Nat → BitVec 32) (p : Panel) : Panel :=
  let width := endXPos - startXPos + 1
  let height := endYPos - startYPos + 1
  drawRows (fun i j => (colorBuff (i * width.toNat + j)).setWidth 16) startXPos startYPos
    width.toNat height.toNat 0 p

/-! ## What they should do -/

section

variable (startXPos startYPos endXPos endYPos : BitVec 16) (colorBuff : Nat → BitVec 32)

/-- The rectangle of a block. -/
def blockRect : Rect where
  x := startXPos.toNat
  y := startYPos.toNat
  w := endXPos.toNat - startXPos.toNat + 1
  h := endYPos.toNat - startYPos.toNat + 1

/-- The point at row `i` and column `j` of a block of `width` columns. -/
def drawCell (width : Nat) (p : Panel) (c : Nat × Nat) : Panel :=
  tftlcdDrawPoint (startXPos + BitVec.ofNat 16 c.2) (startYPos + BitVec.ofNat 16 c.1)
    (colorBuff (c.1 * width + c.2)) p

/-- The points of a block one after the other, in the order of the list. -/
def drawPoints (width : Nat) (order : List (Nat × Nat)) (p : Panel) : Panel :=
  order.foldl (drawCell startXPos startYPos colorBuff width) p

/-- A list of all rows and columns of the rectangle, in any order. -/
def Covers (r : Rect) (order : List (Nat × Nat)) : Prop :=
  ∀ i j, (i, j) ∈ order ↔ i < r.h ∧ j < r.w

/-- A block and its points give the same picture, and touch nothing outside the rectangle. -/
structure BlockLaw (p : Panel) : Prop where
  agrees : ∀ order, Covers (blockRect startXPos startYPos endXPos endYPos) order →
    (tftlcdDrawBlock startXPos startYPos endXPos endYPos colorBuff p).gram =
      (drawPoints startXPos startYPos colorBuff (blockRect startXPos startYPos endXPos endYPos).w
        order p).gram
  blockOutside : ∀ x y, ¬ (blockRect startXPos startYPos endXPos endYPos).Has x y →
    (tftlcdDrawBlock startXPos startYPos endXPos endYPos colorBuff p).gram x y = p.gram x y
  pointsOutside : ∀ order, Covers (blockRect startXPos startYPos endXPos endYPos) order →
    ∀ x y, ¬ (blockRect startXPos startYPos endXPos endYPos).Has x y →
    (drawPoints startXPos startYPos colorBuff (blockRect startXPos startYPos endXPos endYPos).w
      order p).gram x y = p.gram x y

end

/-- The red byte of a 24-bit colour. -/
def red (c : BitVec 32) : Nat := c.toNat / 65536

/-- The green byte. -/
def green (c : BitVec 32) : Nat := c.toNat / 256 % 256

/-- The blue byte. -/
def blue (c : BitVec 32) : Nat := c.toNat % 256

/-- The colours whose low half is their conversion: red, green and blue in 5, 6 and 5 bits, from the
lowest on, have to be the bits that green and blue have there. -/
def SameCode (c : BitVec 32) : Prop :=
  31 * red c / 255 = blue c % 32 ∧ 63 * green c / 255 = green c % 8 * 8 + blue c / 32 ∧
    31 * blue c / 255 = green c / 8

/-- The picture of a buffer of colours in the rectangle `r`. -/
def image (code : BitVec 32 → BitVec 16) (colorBuff : Nat → BitVec 32) (r : Rect) :
    Nat → Nat → BitVec 16 :=
  fun x y => code (colorBuff ((y - r.y) * r.w + (x - r.x)))

variable {startXPos startYPos endXPos endYPos : BitVec 16} {colorBuff : Nat → BitVec 32} {p : Panel}

/-! ## Colours -/

/-- A channel of `n` levels, scaled as `RGB_To_U16` does. -/
theorem toNat_scale {n : Nat} {v : BitVec 32} (hn : n < 64) (hv : v.toNat < 256) :
    (BitVec.ofNat 32 n * v / 255).toNat = n * v.toNat / 255 := by
  have hmul : n * v.toNat ≤ 63 * 255 := Nat.mul_le_mul (by omega) (by omega)
  have h255 : (255 : BitVec 32).toNat = 255 := rfl
  rw [BitVec.toNat_udiv, BitVec.toNat_mul, BitVec.toNat_ofNat, h255,
    Nat.mod_eq_of_lt (show n < 2 ^ 32 by omega), Nat.mod_eq_of_lt (by omega)]

theorem rgbToU16_toNat {c : BitVec 32} (h : c.toNat < 2 ^ 24) :
    (rgbToU16 c).toNat =
      31 * red c / 255 + 32 * (63 * green c / 255) + 2048 * (31 * blue c / 255) := by
  have hred : (c >>> 16).toNat = red c := by
    rw [BitVec.toNat_ushiftRight, Nat.shiftRight_eq_div_pow]
    rfl
  have hgreen : ((c &&& 0xFFFF) >>> 8).toNat = green c := by
    have hmask : (c &&& 0xFFFF).toNat = c.toNat % 2 ^ 16 := by
      rw [BitVec.toNat_and]
      exact Nat.and_two_pow_sub_one_eq_mod c.toNat 16
    rw [BitVec.toNat_ushiftRight, Nat.shiftRight_eq_div_pow, hmask, green]
    omega
  have hblue : (c &&& 0xFF).toNat = blue c := by
    rw [BitVec.toNat_and]
    exact Nat.and_two_pow_sub_one_eq_mod c.toNat 8
  have hr : (31 * (c >>> 16) / 255).toNat = 31 * red c / 255 := by
    rw [← hred]
    exact toNat_scale (by decide) (by rw [hred, red]; omega)
  have hg : (63 * ((c &&& 0xFFFF) >>> 8) / 255).toNat = 63 * green c / 255 := by
    rw [← hgreen]
    exact toNat_scale (by decide) (by rw [hgreen, green]; omega)
  have hb : (31 * (c &&& 0xFF) / 255).toNat = 31 * blue c / 255 := by
    rw [← hblue]
    exact toNat_scale (by decide) (by rw [hblue, blue]; omega)
  have hrlt : 31 * red c / 255 < 2 ^ 5 := by rw [red]; omega
  have hglt : 63 * green c / 255 < 2 ^ 6 := by rw [green]; omega
  have hblt : 31 * blue c / 255 < 2 ^ 5 := by rw [blue]; omega
  unfold rgbToU16
  dsimp only
  rw [BitVec.toNat_setWidth, BitVec.toNat_or, BitVec.toNat_or, BitVec.toNat_shiftLeft,
    BitVec.toNat_shiftLeft, hr, hg, hb, Nat.shiftLeft_eq, Nat.shiftLeft_eq,
    Nat.mod_eq_of_lt (show 63 * green c / 255 * 2 ^ 5 < 2 ^ 32 by omega),
    Nat.mod_eq_of_lt (show 31 * blue c / 255 * 2 ^ 11 < 2 ^ 32 by omega)]
  -- the three fields have no bit in common
  rw [Nat.or_comm (31 * red c / 255), Nat.mul_comm _ (2 ^ 5),
    ← Nat.two_pow_add_eq_or_of_lt hrlt, Nat.or_comm, Nat.mul_comm _ (2 ^ 11),
    ← Nat.two_pow_add_eq_or_of_lt (by omega), Nat.mod_eq_of_lt (by omega)]
  omega

theorem setWidth_eq_rgbToU16_iff {c : BitVec 32} (h : c.toNat < 2 ^ 24) :
    c.setWidth 16 = rgbToU16 c ↔ SameCode c := by
  have hlow : c.toNat % 2 ^ 16 = 256 * green c + blue c := by
    rw [green, blue]
    omega
  have hr : 31 * red c / 255 < 32 := by rw [red]; omega
  have hg : 63 * green c / 255 < 64 := by rw [green]; omega
  have hblt : blue c < 256 := by rw [blue]; omega
  rw [← BitVec.toNat_inj, BitVec.toNat_setWidth, rgbToU16_toNat h, hlow, SameCode]
  generalize 31 * red c / 255 = r at hr ⊢
  generalize 63 * green c / 255 = g at hg ⊢
  generalize 31 * blue c / 255 = b
  omega

/-! ## Blocks -/

theorem toNat_extent {a b : BitVec 16} (h : a ≤ b) (hb : b.toNat < 320) :
    (b - a + 1).toNat = b.toNat - a.toNat + 1 := by
  rw [BitVec.le_def] at h
  have hone : (1 : BitVec 16).toNat = 1 := rfl
  rw [BitVec.toNat_add, BitVec.toNat_sub, hone]
  omega

/-- **A block** paints its rectangle with the low halves of the colours. -/
theorem tftlcdDrawBlock_spec (hx : startXPos ≤ endXPos) (hex : endXPos.toNat < tftlcdWidth)
    (hy : startYPos ≤ endYPos) (hey : endYPos.toNat < tftlcdHeight)
    (hedge : tftlcdWidth ≤ p.colEnd + 1) :
    (tftlcdDrawBlock startXPos startYPos endXPos endYPos colorBuff p).gram =
      (blockRect startXPos startYPos endXPos endYPos).paint
        (image (BitVec.setWidth 16) colorBuff
          (blockRect startXPos startYPos endXPos endYPos)) p.gram := by
  rw [tftlcdWidth] at hex hedge
  rw [tftlcdHeight] at hey
  have hw := toNat_extent hx (by omega)
  have hh := toNat_extent hy hey
  rw [BitVec.le_def] at hx hy
  rw [tftlcdDrawBlock, hw, hh]
  refine (drawRows_spec _ _ startXPos startYPos _ _ 0 p (by omega) (by omega) ?_).gram
  intro k j hk hj
  simp only [image, blockRect, Nat.zero_add, Nat.add_zero, Nat.add_sub_cancel_left]

/-! ## Points -/

/-- A point paints one pixel. -/
theorem tftlcdDrawPoint_gram (xPos yPos : BitVec 16) (color : BitVec 32) (p : Panel) :
    (tftlcdDrawPoint xPos yPos color p).gram =
      (⟨xPos.toNat, yPos.toNat, 1, 1⟩ : Rect).paint (fun _ _ => rgbToU16 color) p.gram := by
  rw [tftlcdDrawPoint, tftlcdSetCursor_spec, Panel.reg, if_pos rfl, ram_pixel rfl, Panel.pixel]
  split <;> rfl

/-- A cell of the rectangle paints its pixel of the picture. -/
theorem drawCell_gram {r : Rect} (hrx : startXPos.toNat = r.x) (hry : startYPos.toNat = r.y)
    (hfit : r.x + r.w ≤ 2 ^ 16 ∧ r.y + r.h ≤ 2 ^ 16) {c : Nat × Nat} (hc : c.1 < r.h ∧ c.2 < r.w)
    (p : Panel) :
    (drawCell startXPos startYPos colorBuff r.w p c).gram =
      (⟨r.x + c.2, r.y + c.1, 1, 1⟩ : Rect).paint (image rgbToU16 colorBuff r) p.gram := by
  have hcol : (startXPos + BitVec.ofNat 16 c.2).toNat = r.x + c.2 := by
    rw [BitVec.toNat_add, BitVec.toNat_ofNat, hrx]
    omega
  have hrow : (startYPos + BitVec.ofNat 16 c.1).toNat = r.y + c.1 := by
    rw [BitVec.toNat_add, BitVec.toNat_ofNat, hry]
    omega
  rw [drawCell, tftlcdDrawPoint_gram, hcol, hrow]
  apply Rect.paint_congr
  intro px py hp
  rw [Rect.has_rect] at hp
  obtain rfl : px = r.x + c.2 := by omega
  obtain rfl : py = r.y + c.1 := by omega
  rw [image, Nat.add_sub_cancel_left, Nat.add_sub_cancel_left]

/-- Points paint the cells they are drawn at, in any order. -/
theorem drawPoints_gram {r : Rect} (hrx : startXPos.toNat = r.x) (hry : startYPos.toNat = r.y)
    (hfit : r.x + r.w ≤ 2 ^ 16 ∧ r.y + r.h ≤ 2 ^ 16) (order : List (Nat × Nat))
    (horder : ∀ c ∈ order, c.1 < r.h ∧ c.2 < r.w) (p : Panel) (px py : Nat) :
    (drawPoints startXPos startYPos colorBuff r.w order p).gram px py =
      if ∃ c ∈ order, r.x + c.2 = px ∧ r.y + c.1 = py then image rgbToU16 colorBuff r px py
      else p.gram px py := by
  induction order generalizing p with
  | nil => simp [drawPoints]
  | cons c order ih =>
    have hrest := ih (fun d hd => horder d (List.mem_cons_of_mem c hd))
      (drawCell startXPos startYPos colorBuff r.w p c)
    rw [drawCell_gram hrx hry hfit (horder c List.mem_cons_self)] at hrest
    refine (Eq.trans rfl hrest).trans ?_
    by_cases hlater : ∃ d ∈ order, r.x + d.2 = px ∧ r.y + d.1 = py
    · obtain ⟨d, hd, hpos⟩ := hlater
      rw [if_pos ⟨d, hd, hpos⟩, if_pos ⟨d, List.mem_cons_of_mem c hd, hpos⟩]
    · rw [if_neg hlater, Rect.paint]
      refine if_congr ?_ rfl rfl
      rw [Rect.has_rect]
      constructor
      · intro hp
        exact ⟨c, List.mem_cons_self, by omega, by omega⟩
      · rintro ⟨d, hd, hpos⟩
        rcases List.mem_cons.mp hd with rfl | hd
        · omega
        · exact absurd ⟨d, hd, hpos⟩ hlater

/-- **Points** of the whole rectangle paint it with the converted colours. -/
theorem drawPoints_spec {r : Rect} (hrx : startXPos.toNat = r.x) (hry : startYPos.toNat = r.y)
    (hfit : r.x + r.w ≤ 2 ^ 16 ∧ r.y + r.h ≤ 2 ^ 16) {order : List (Nat × Nat)}
    (hall : Covers r order) (p : Panel) :
    (drawPoints startXPos startYPos colorBuff r.w order p).gram =
      r.paint (image rgbToU16 colorBuff r) p.gram := by
  funext px py
  rw [drawPoints_gram hrx hry hfit order (fun c hc => (hall c.1 c.2).mp hc), Rect.paint]
  refine if_congr ?_ rfl rfl
  constructor
  · rintro ⟨c, hc, rfl, rfl⟩
    have hin := (hall c.1 c.2).mp hc
    exact ⟨by omega, by omega⟩
  · rintro ⟨hx, hy⟩
    exact ⟨(py - r.y, px - r.x), (hall _ _).mpr (by omega), by dsimp only; omega,
      by dsimp only; omega⟩

/-! ## The law -/

/-- A list of all cells, row by row. -/
def allCells (r : Rect) : List (Nat × Nat) :=
  (List.range r.h).flatMap fun i => (List.range r.w).map fun j => (i, j)

theorem covers_allCells (r : Rect) : Covers r (allCells r) := by
  intro i j
  simp [allCells]

theorem blockRect_fits (hx : startXPos ≤ endXPos) (hy : startYPos ≤ endYPos) :
    (blockRect startXPos startYPos endXPos endYPos).x +
        (blockRect startXPos startYPos endXPos endYPos).w ≤ 2 ^ 16 ∧
      (blockRect startXPos startYPos endXPos endYPos).y +
        (blockRect startXPos startYPos endXPos endYPos).h ≤ 2 ^ 16 := by
  have hex := endXPos.isLt
  have hey := endYPos.isLt
  rw [BitVec.le_def] at hx hy
  simp only [blockRect]
  omega

/-- The pictures of a block and of its points, compared pixel by pixel. -/
theorem image_eq_iff (r : Rect) :
    (∀ px py, r.Has px py →
      image (BitVec.setWidth 16) colorBuff r px py = image rgbToU16 colorBuff r px py) ↔
      ∀ i, i < r.h → ∀ j, j < r.w →
        (colorBuff (i * r.w + j)).setWidth 16 = rgbToU16 (colorBuff (i * r.w + j)) := by
  constructor
  · intro h i hi j hj
    have hcell := h (r.x + j) (r.y + i) ⟨by omega, by omega⟩
    rwa [image, image, Nat.add_sub_cancel_left, Nat.add_sub_cancel_left] at hcell
  · rintro h px py ⟨hx, hy⟩
    exact h (py - r.y) (by omega) (px - r.x) (by omega)

/-- The law, once both drawings are known: it is about the two pictures. -/
theorem blockLaw_iff_images (hx : startXPos ≤ endXPos) (hex : endXPos.toNat < tftlcdWidth)
    (hy : startYPos ≤ endYPos) (hey : endYPos.toNat < tftlcdHeight)
    (hedge : tftlcdWidth ≤ p.colEnd + 1) :
    BlockLaw startXPos startYPos endXPos endYPos colorBuff p ↔
      ∀ px py, (blockRect startXPos startYPos endXPos endYPos).Has px py →
        image (BitVec.setWidth 16) colorBuff (blockRect startXPos startYPos endXPos endYPos) px py =
          image rgbToU16 colorBuff (blockRect startXPos startYPos endXPos endYPos) px py := by
  have hblock : (tftlcdDrawBlock startXPos startYPos endXPos endYPos colorBuff p).gram = _ :=
    tftlcdDrawBlock_spec hx hex hy hey hedge
  have hpoints : ∀ order, Covers (blockRect startXPos startYPos endXPos endYPos) order →
      (drawPoints startXPos startYPos colorBuff _ order p).gram = _ :=
    fun order hall => drawPoints_spec rfl rfl (blockRect_fits hx hy) hall p
  constructor
  · intro hlaw
    have hagree := hlaw.agrees _ (covers_allCells _)
    rw [hblock, hpoints _ (covers_allCells _)] at hagree
    exact Rect.paint_eq_iff.mp hagree
  · intro himage
    constructor
    case agrees =>
      intro order hall
      rw [hblock, hpoints order hall]
      exact Rect.paint_eq_iff.mpr himage
    case blockOutside =>
      intro x y hout
      rw [hblock]
      exact if_neg hout
    case pointsOutside =>
      intro order hall x y hout
      rw [hpoints order hall]
      exact if_neg hout

/-- **When a block agrees with its points**: the low half of every colour is its conversion. -/
theorem blockLaw_iff (startXPos startYPos endXPos endYPos : BitVec 16)
    (colorBuff : Nat → BitVec 32) (p : Panel) (hp : p.FullScreen) (hx : startXPos ≤ endXPos)
    (hex : endXPos.toNat < tftlcdWidth) (hy : startYPos ≤ endYPos)
    (hey : endYPos.toNat < tftlcdHeight)
    (hbuff : ∀ i, i < endYPos.toNat - startYPos.toNat + 1 →
      ∀ j, j < endXPos.toNat - startXPos.toNat + 1 →
        (colorBuff (i * (endXPos.toNat - startXPos.toNat + 1) + j)).toNat < 2 ^ 24) :
    BlockLaw startXPos startYPos endXPos endYPos colorBuff p ↔
      ∀ i, i < endYPos.toNat - startYPos.toNat + 1 →
        ∀ j, j < endXPos.toNat - startXPos.toNat + 1 →
          SameCode (colorBuff (i * (endXPos.toNat - startXPos.toNat + 1) + j)) := by
  have hedge : tftlcdWidth ≤ p.colEnd + 1 := by
    rw [hp.colEnd]
    exact Nat.le_refl _
  rw [blockLaw_iff_images hx hex hy hey hedge, image_eq_iff]
  constructor
  · intro h i hi j hj
    exact (setWidth_eq_rgbToU16_iff (hbuff i hi j hj)).mp (h i hi j hj)
  · intro h i hi j hj
    exact (setWidth_eq_rgbToU16_iff (hbuff i hi j hj)).mpr (h i hi j hj)

/-- A black and a white pixel at the lower right corner. -/
theorem blockLaw_black_white :
    BlockLaw 238 319 239 319 (fun k => if k = 0 then 0 else 0xFFFFFF)
      ⟨0, [], 0, 239, 0, 319, 0, 0, fun _ _ => 0⟩ :=
  (blockLaw_iff 238 319 239 319 _ _ ⟨rfl, rfl⟩ (by decide) (by decide) (by decide)
    (by decide) (by decide)).mpr (by unfold SameCode; decide)

/-- One red pixel: a point of it is red, a block of it is black. -/
theorem blockLaw_fails_red :
    (tftlcdDrawPoint 0 0 0xFF0000 ⟨0, [], 0, 239, 0, 319, 0, 0, fun _ _ => 0⟩).gram 0 0 = 0x001F ∧
      (tftlcdDrawBlock 0 0 0 0 (fun _ => 0xFF0000)
        ⟨0, [], 0, 239, 0, 319, 0, 0, fun _ _ => 0⟩).gram 0 0 = 0 ∧
      ¬ BlockLaw 0 0 0 0 (fun _ => 0xFF0000) ⟨0, [], 0, 239, 0, 319, 0, 0, fun _ _ => 0⟩ := by
  refine ⟨rfl, rfl, ?_⟩
  rw [blockLaw_iff_images (by decide) (by decide) (by decide) (by decide) (by decide)]
  intro himage
  exact absurd (himage 0 0 (by decide)) (by decide)

end Stm32F407.Lcd
