import Stm32F407.Lcd.Panel

/-!
# Lines and boxes: `tftlcd_element.c`

`DrawLine` fills a rectangle, one row at a time. `DrawBox` is four of them for the border, above,
below, right and left of the inside, and a fifth for the inside when the box is solid; all five are
drawn with one line object, set up anew for the sides and for the inside.

* `drawLine_spec`: a line paints its rectangle.
* `drawBorder_spec`: the four lines of the border paint the frame and leave the inside alone.
* `drawBox_paints`: on a panel whose window ends at the edges of the screen, a box that fits on the
  screen is painted exactly.
-/

namespace Stm32F407.Lcd

open Stm32F407.Lib

/-- `Ele_Line_PropType`. -/
structure EleLineProp where
  eleLineWidth : BitVec 16
  eleLineHeight : BitVec 16
  eleLineColor : BitVec 32
deriving DecidableEq, Repr

/-- `Ele_Box_PropType`. -/
structure EleBoxProp where
  eleBoxWidth : BitVec 16
  eleBoxHeight : BitVec 16
  eleBoxColor : BitVec 32
  eleBoxIsSolid : BitVec 8
  eleBoxBorder : EleLineProp
deriving DecidableEq, Repr

/-- `DrawLine`. -/
def drawLine (startXPix startYPix : BitVec 16) (obj : EleLineProp) (p : Panel) : Panel :=
  let colorU16 := rgbToU16 obj.eleLineColor
  drawRows (fun _ _ => colorU16) startXPix startYPix obj.eleLineWidth.toNat
    obj.eleLineHeight.toNat 0 p

/-- `DrawBox`; the `Display` of the line object that `CreateLineObject` makes is `DrawLine`. -/
def drawBox (startXPix startYPix : BitVec 16) (obj : EleBoxProp) (p : Panel) : Panel :=
  let borderWidth := obj.eleBoxBorder.eleLineWidth
  let borderHeight := obj.eleBoxBorder.eleLineHeight
  let boxTotalWidth := obj.eleBoxWidth + borderWidth * 2
  let boxTotalHeight := obj.eleBoxHeight + borderHeight * 2
  let lineObj :=
    { obj.eleBoxBorder with eleLineWidth := boxTotalWidth, eleLineHeight := borderHeight }
  let p := drawLine startXPix startYPix lineObj p
  let p := drawLine startXPix (startYPix + boxTotalHeight - borderHeight) lineObj p
  let lineObj := { lineObj with eleLineWidth := borderWidth, eleLineHeight := obj.eleBoxHeight }
  let p := drawLine (startXPix + boxTotalWidth - borderWidth) (startYPix + borderHeight) lineObj p
  let p := drawLine startXPix (startYPix + borderHeight) lineObj p
  if obj.eleBoxIsSolid = 0 then p
  else
    let lineObj :=
      { lineObj with
        eleLineWidth := obj.eleBoxWidth
        eleLineHeight := obj.eleBoxHeight
        eleLineColor := obj.eleBoxColor }
    drawLine (startXPix + borderWidth) (startYPix + borderHeight) lineObj p

/-! ## What a box is -/

namespace EleBoxProp

/-- The box with its border. -/
def outer (obj : EleBoxProp) (startXPix startYPix : BitVec 16) : Rect where
  x := startXPix.toNat
  y := startYPix.toNat
  w := obj.eleBoxWidth.toNat + 2 * obj.eleBoxBorder.eleLineWidth.toNat
  h := obj.eleBoxHeight.toNat + 2 * obj.eleBoxBorder.eleLineHeight.toNat

/-- The box without it. -/
def inner (obj : EleBoxProp) (startXPix startYPix : BitVec 16) : Rect where
  x := startXPix.toNat + obj.eleBoxBorder.eleLineWidth.toNat
  y := startYPix.toNat + obj.eleBoxBorder.eleLineHeight.toNat
  w := obj.eleBoxWidth.toNat
  h := obj.eleBoxHeight.toNat

/-- The image `g` with the box over it. -/
def overlay (obj : EleBoxProp) (startXPix startYPix : BitVec 16) (g : Nat → Nat → BitVec 16) :
    Nat → Nat → BitVec 16 := fun px py =>
  if (obj.outer startXPix startYPix).Has px py then
    if (obj.inner startXPix startYPix).Has px py then
      if obj.eleBoxIsSolid = 0 then g px py else rgbToU16 obj.eleBoxColor
    else rgbToU16 obj.eleBoxBorder.eleLineColor
  else g px py

/-- The box with its border is on the screen. -/
def Fits (obj : EleBoxProp) (startXPix startYPix : BitVec 16) : Prop :=
  (obj.outer startXPix startYPix).x + (obj.outer startXPix startYPix).w ≤ 240 ∧
    (obj.outer startXPix startYPix).y + (obj.outer startXPix startYPix).h ≤ 320

instance (obj : EleBoxProp) (startXPix startYPix : BitVec 16) :
    Decidable (obj.Fits startXPix startYPix) :=
  inferInstanceAs (Decidable (_ ∧ _))

end EleBoxProp

/-! ## Drawing -/

variable {startXPix startYPix : BitVec 16} {p : Panel}

/-- A line that is on the screen paints its rectangle `r`. -/
theorem drawLine_spec (startXPix startYPix : BitVec 16) (obj : EleLineProp) {r : Rect}
    (hp : p.FullScreen)
    (hr : r = ⟨startXPix.toNat, startYPix.toNat, obj.eleLineWidth.toNat, obj.eleLineHeight.toNat⟩)
    (hw : r.x + r.w ≤ 240) (hh : r.y + r.h ≤ 320) :
    (drawLine startXPix startYPix obj p).gram =
        r.paint (fun _ _ => rgbToU16 obj.eleLineColor) p.gram ∧
      (drawLine startXPix startYPix obj p).FullScreen := by
  subst hr
  have hshows := drawRows_spec (fun _ _ => rgbToU16 obj.eleLineColor)
    (fun _ _ => rgbToU16 obj.eleLineColor) startXPix startYPix obj.eleLineWidth.toNat
    obj.eleLineHeight.toNat 0 p (by rw [hp.colEnd]; exact hw) (Nat.le_trans hh (by decide))
    fun _ _ _ _ => rfl
  exact ⟨hshows.gram, hshows.colEnd.trans hp.colEnd, hshows.rowEnd.trans hp.rowEnd⟩

/-- From the near edge of the border to its far edge, in 16 bits. -/
theorem total_toNat {size border : BitVec 16} (h : size.toNat + 2 * border.toNat < 2 ^ 16) :
    (size + border * 2).toNat = size.toNat + 2 * border.toNat := by
  bv_omega

/-- Where the far side of the border begins. -/
theorem far_toNat {start size border : BitVec 16}
    (h : start.toNat + (size.toNat + 2 * border.toNat) < 2 ^ 16) :
    (start + (size + border * 2) - border).toNat = start.toNat + size.toNat + border.toNat := by
  bv_omega

/-- Where its near side ends. -/
theorem near_toNat {start border : BitVec 16} (h : start.toNat + border.toNat < 2 ^ 16) :
    (start + border).toNat = start.toNat + border.toNat := by
  bv_omega

/-- The line object of `DrawBox` above and below the inside. -/
def EleBoxProp.horizontal (obj : EleBoxProp) : EleLineProp :=
  { obj.eleBoxBorder with eleLineWidth := obj.eleBoxWidth + obj.eleBoxBorder.eleLineWidth * 2 }

/-- The line object at its sides. -/
def EleBoxProp.vertical (obj : EleBoxProp) : EleLineProp :=
  { obj.eleBoxBorder with eleLineHeight := obj.eleBoxHeight }

/-- The line object for the inside. -/
def EleBoxProp.inside (obj : EleBoxProp) : EleLineProp where
  eleLineWidth := obj.eleBoxWidth
  eleLineHeight := obj.eleBoxHeight
  eleLineColor := obj.eleBoxColor

/-- The part of `DrawBox` before the test of `Ele_Box_IsSolid`. -/
def drawBorder (startXPix startYPix : BitVec 16) (obj : EleBoxProp) (p : Panel) : Panel :=
  let top := drawLine startXPix startYPix obj.horizontal p
  let bottom := drawLine startXPix
    (startYPix + (obj.eleBoxHeight + obj.eleBoxBorder.eleLineHeight * 2) -
      obj.eleBoxBorder.eleLineHeight) obj.horizontal top
  let right := drawLine
    (startXPix + (obj.eleBoxWidth + obj.eleBoxBorder.eleLineWidth * 2) -
      obj.eleBoxBorder.eleLineWidth)
    (startYPix + obj.eleBoxBorder.eleLineHeight) obj.vertical bottom
  drawLine startXPix (startYPix + obj.eleBoxBorder.eleLineHeight) obj.vertical right

theorem drawBox_eq (obj : EleBoxProp) :
    drawBox startXPix startYPix obj p =
      if obj.eleBoxIsSolid = 0 then drawBorder startXPix startYPix obj p
      else drawLine (startXPix + obj.eleBoxBorder.eleLineWidth)
        (startYPix + obj.eleBoxBorder.eleLineHeight) obj.inside
        (drawBorder startXPix startYPix obj p) := rfl

variable {obj : EleBoxProp}

/-- The four lines are a frame, and leave the inside alone. -/
theorem drawBorder_spec (hp : p.FullScreen) (hfit : obj.Fits startXPix startYPix) :
    (∀ px py, (drawBorder startXPix startYPix obj p).gram px py =
      if (obj.outer startXPix startYPix).Has px py ∧ ¬ (obj.inner startXPix startYPix).Has px py
      then rgbToU16 obj.eleBoxBorder.eleLineColor else p.gram px py) ∧
    (drawBorder startXPix startYPix obj p).FullScreen := by
  obtain ⟨hw, hh⟩ := hfit
  simp only [EleBoxProp.outer] at hw hh
  obtain ⟨htop, hp⟩ := drawLine_spec startXPix startYPix obj.horizontal hp
    (by rw [EleBoxProp.horizontal, total_toNat (by omega)]) hw (by dsimp only; omega)
  obtain ⟨hbottom, hp⟩ := drawLine_spec startXPix
    (startYPix + (obj.eleBoxHeight + obj.eleBoxBorder.eleLineHeight * 2) -
      obj.eleBoxBorder.eleLineHeight) obj.horizontal hp
    (by rw [EleBoxProp.horizontal, total_toNat (by omega), far_toNat (by omega)]) hw
    (by dsimp only; omega)
  obtain ⟨hright, hp⟩ := drawLine_spec
    (startXPix + (obj.eleBoxWidth + obj.eleBoxBorder.eleLineWidth * 2) -
      obj.eleBoxBorder.eleLineWidth)
    (startYPix + obj.eleBoxBorder.eleLineHeight) obj.vertical hp
    (by rw [EleBoxProp.vertical, far_toNat (by omega), near_toNat (by omega)])
    (by dsimp only; omega) (by dsimp only; omega)
  obtain ⟨hleft, hp⟩ := drawLine_spec startXPix (startYPix + obj.eleBoxBorder.eleLineHeight)
    obj.vertical hp (by rw [EleBoxProp.vertical, near_toNat (by omega)])
    (by dsimp only; omega) (by dsimp only; omega)
  refine ⟨?_, hp⟩
  intro px py
  rw [drawBorder, hleft, hright, hbottom, htop]
  exact Rect.paint_frame px py

/-- A box that fits is painted exactly, and every pixel outside it stays. -/
theorem drawBox_paints (startXPix startYPix : BitVec 16) (obj : EleBoxProp) (p : Panel)
    (hp : p.FullScreen) (hfit : obj.Fits startXPix startYPix) :
    (drawBox startXPix startYPix obj p).gram = obj.overlay startXPix startYPix p.gram := by
  obtain ⟨hborder, hpb⟩ := drawBorder_spec hp hfit
  obtain ⟨hw, hh⟩ := hfit
  simp only [EleBoxProp.outer] at hw hh
  funext px py
  have hnested : (obj.inner startXPix startYPix).Has px py →
      (obj.outer startXPix startYPix).Has px py := by
    simp only [EleBoxProp.inner, EleBoxProp.outer, Rect.has_rect]
    omega
  rw [drawBox_eq, EleBoxProp.overlay]
  by_cases hsolid : obj.eleBoxIsSolid = 0
  · rw [if_pos hsolid, hborder]
    by_cases hin : (obj.inner startXPix startYPix).Has px py
    · rw [if_neg fun h => h.2 hin, if_pos (hnested hin), if_pos hin, if_pos hsolid]
    · simp [hin]
  · obtain ⟨hinside, -⟩ := drawLine_spec (startXPix + obj.eleBoxBorder.eleLineWidth)
      (startYPix + obj.eleBoxBorder.eleLineHeight) obj.inside hpb
      (r := obj.inner startXPix startYPix)
      (by rw [near_toNat (by omega), near_toNat (by omega)]; rfl)
      (by dsimp only [EleBoxProp.inner]; omega) (by dsimp only [EleBoxProp.inner]; omega)
    rw [if_neg hsolid, hinside, Rect.paint, hborder]
    by_cases hin : (obj.inner startXPix startYPix).Has px py
    · rw [if_pos hin, if_pos (hnested hin), if_pos hin, if_neg hsolid]
      rfl
    · simp [hin]

/-- A box with a border of one pixel in the corner of the screen. -/
theorem drawBox_paints_corner :
    (drawBox 228 305 ⟨10, 13, 0x00FF00, 1, ⟨1, 1, 0xFF0000⟩⟩
      ⟨0, [], 0, 239, 0, 319, 0, 0, fun _ _ => 0xFFFF⟩).gram =
      (EleBoxProp.mk 10 13 0x00FF00 1 ⟨1, 1, 0xFF0000⟩).overlay 228 305 fun _ _ => 0xFFFF :=
  drawBox_paints 228 305 ⟨10, 13, 0x00FF00, 1, ⟨1, 1, 0xFF0000⟩⟩
    ⟨0, [], 0, 239, 0, 319, 0, 0, fun _ _ => 0xFFFF⟩ ⟨rfl, rfl⟩ (by decide)

end Stm32F407.Lcd
