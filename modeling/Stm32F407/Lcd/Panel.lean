import Stm32F407.Lib.Raster

/-!
# The panel behind `tftlcd.c`, and the colours of `rgb.c`

The display controller as the driver sees it: a command register and a data register. After the
column command (0x2A) and the page command (0x2B) it puts each coordinate together from a high and a
low byte, first the start and then the end; the memory-write command (0x2C) goes to the start of the
window, and every word after it is one pixel and moves on along the row, from the column end to the
start of the next row.

* `tftlcdSetCursor_spec`: `TFTLCD_SetCursor` sets the two starts, and nothing else.
* `rams_spec`: words written along one row paint one row.
* `drawRows_spec`: the loop that `DrawLine` shares with the other drawing functions, a cursor and a
  row of words at a time, paints a rectangle.
-/

namespace Stm32F407.Lcd

open Stm32F407.Lib

/-- The controller. `args` are the words since the command, `col` and `row` where the next pixel
goes. -/
structure Panel where
  cmd : BitVec 16
  args : List (BitVec 16)
  colStart : Nat
  colEnd : Nat
  rowStart : Nat
  rowEnd : Nat
  col : Nat
  row : Nat
  gram : Nat → Nat → BitVec 16

/-- `TFTLCD_Conf.TFTLCD_Cmd.CMD_Write_XPos`. -/
def cmdWriteXPos : BitVec 16 := 0x2A

/-- `TFTLCD_Conf.TFTLCD_Cmd.CMD_Write_YPos`. -/
def cmdWriteYPos : BitVec 16 := 0x2B

/-- `TFTLCD_Conf.TFTLCD_Cmd.CMD_Write_ColorCode`. -/
def cmdWriteColorCode : BitVec 16 := 0x2C

/-- A coordinate from its high and its low byte. -/
def coord (hi lo : BitVec 16) : Nat := hi.toNat % 256 * 256 + lo.toNat % 256

namespace Panel

/-- `TFTLCD_REG`: a write of the command register. -/
def reg (c : BitVec 16) (p : Panel) : Panel :=
  if c = cmdWriteColorCode then
    { p with cmd := c, args := [], col := p.colStart, row := p.rowStart }
  else { p with cmd := c, args := [] }

/-- A word after the column command. -/
def column (d : BitVec 16) (p : Panel) : Panel :=
  match p.args with
  | [hi] => { p with args := [hi, d], colStart := coord hi d }
  | [a, b, hi] => { p with args := [a, b, hi, d], colEnd := coord hi d }
  | args => { p with args := args ++ [d] }

/-- A word after the page command. -/
def page (d : BitVec 16) (p : Panel) : Panel :=
  match p.args with
  | [hi] => { p with args := [hi, d], rowStart := coord hi d }
  | [a, b, hi] => { p with args := [a, b, hi, d], rowEnd := coord hi d }
  | args => { p with args := args ++ [d] }

/-- A pixel: it is stored, and the place moves on inside the window. -/
def pixel (d : BitVec 16) (p : Panel) : Panel :=
  let gram := (⟨p.col, p.row, 1, 1⟩ : Rect).paint (fun _ _ => d) p.gram
  if p.col = p.colEnd then
    { p with gram, col := p.colStart, row := if p.row = p.rowEnd then p.rowStart else p.row + 1 }
  else { p with gram, col := p.col + 1 }

/-- `TFTLCD_RAM`: a write of the data register. -/
def ram (d : BitVec 16) (p : Panel) : Panel :=
  if p.cmd = cmdWriteXPos then p.column d
  else if p.cmd = cmdWriteYPos then p.page d
  else if p.cmd = cmdWriteColorCode then p.pixel d
  else p

/-- The ends of the window are the edges of the screen. -/
structure FullScreen (p : Panel) : Prop where
  colEnd : p.colEnd = 239
  rowEnd : p.rowEnd = 319

/-- `q` shows `g` and is otherwise set up as `p`, but for the cursor. -/
structure Shows (p : Panel) (g : Nat → Nat → BitVec 16) (q : Panel) : Prop where
  gram : q.gram = g
  colEnd : q.colEnd = p.colEnd
  rowEnd : q.rowEnd = p.rowEnd

end Panel

/-- `RGB_To_U16`, and the macro `COLOR16`. -/
def rgbToU16 (rgb : BitVec 32) : BitVec 16 :=
  let r := 31 * (rgb >>> 16) / 255
  let g := 63 * ((rgb &&& 0xFFFF) >>> 8) / 255
  let b := 31 * (rgb &&& 0xFF) / 255
  (r ||| g <<< 5 ||| b <<< 11).setWidth 16

/-- `TFTLCD_SetCursor`. -/
def tftlcdSetCursor (xPos yPos : BitVec 16) (p : Panel) : Panel :=
  let p := p.reg cmdWriteXPos
  let p := p.ram (xPos >>> 8)
  let p := p.ram (xPos &&& 0xFF)
  let p := p.reg cmdWriteYPos
  let p := p.ram (yPos >>> 8)
  p.ram (yPos &&& 0xFF)

/-- A loop of `n` writes of the data register, the words taken from `f` from index `j` on. -/
def rams (f : Nat → BitVec 16) : Nat → Nat → Panel → Panel
  | 0, _, p => p
  | n + 1, j, p => rams f n (j + 1) (p.ram (f j))

/-- The loop of a drawing function over `n` more rows, from row `i` on: the cursor goes to the start
of the row, and `width` words follow. -/
def drawRows (f : Nat → Nat → BitVec 16) (xPos yPos : BitVec 16) (width : Nat) :
    Nat → Nat → Panel → Panel
  | 0, _, p => p
  | n + 1, i, p =>
    let p := tftlcdSetCursor xPos (yPos + BitVec.ofNat 16 i) p
    drawRows f xPos yPos width n (i + 1) (rams (f i) width 0 (p.reg cmdWriteColorCode))

/-! ## The cursor -/

theorem toNat_lowByte (v : BitVec 16) : (v &&& 0xFF).toNat = v.toNat % 256 := by
  rw [BitVec.toNat_and]
  exact Nat.and_two_pow_sub_one_eq_mod v.toNat 8

theorem coord_bytes (v : BitVec 16) : coord (v >>> 8) (v &&& 0xFF) = v.toNat := by
  have hhi : (v >>> 8).toNat = v.toNat / 256 := by
    rw [BitVec.toNat_ushiftRight, Nat.shiftRight_eq_div_pow]
  have hv := v.isLt
  unfold coord
  rw [hhi, toNat_lowByte]
  omega

theorem tftlcdSetCursor_spec (xPos yPos : BitVec 16) (p : Panel) :
    tftlcdSetCursor xPos yPos p =
      { p with
        cmd := cmdWriteYPos
        args := [yPos >>> 8, yPos &&& 0xFF]
        colStart := xPos.toNat
        rowStart := yPos.toNat } := by
  simpa [tftlcdSetCursor, Panel.reg, Panel.ram, Panel.column, Panel.page, cmdWriteXPos,
    cmdWriteYPos, cmdWriteColorCode] using ⟨coord_bytes xPos, coord_bytes yPos⟩

/-! ## Pixels -/

theorem Panel.Shows.trans {p q r : Panel} {g g' : Nat → Nat → BitVec 16} (hq : p.Shows g q)
    (hr : q.Shows g' r) : p.Shows g' r :=
  ⟨hr.gram, hr.colEnd.trans hq.colEnd, hr.rowEnd.trans hq.rowEnd⟩

theorem ram_pixel {p : Panel} (hcmd : p.cmd = cmdWriteColorCode) (d : BitVec 16) :
    p.ram d = p.pixel d := by
  rw [Panel.ram, hcmd]
  rfl

/-- Words along one row, up to the column end: `F` is the image they are the pixels of. -/
theorem rams_spec (f : Nat → BitVec 16) (F : Nat → Nat → BitVec 16) (n j : Nat) (p : Panel)
    (hcmd : p.cmd = cmdWriteColorCode) (hfit : 0 < n → p.col + n ≤ p.colEnd + 1)
    (hF : ∀ k, k < n → f (j + k) = F (p.col + k) p.row) :
    p.Shows ((⟨p.col, p.row, n, 1⟩ : Rect).paint F p.gram) (rams f n j p) := by
  induction n generalizing j p with
  | zero => exact ⟨(Rect.paint_empty (.inl rfl)).symm, rfl, rfl⟩
  | succ n ih =>
    have hgram : (⟨p.col, p.row, 1, 1⟩ : Rect).paint (fun _ _ => f j) p.gram =
        (⟨p.col, p.row, 1, 1⟩ : Rect).paint F p.gram := by
      apply Rect.paint_congr
      intro px py hp
      rw [Rect.has_rect] at hp
      obtain rfl : px = p.col := by omega
      obtain rfl : py = p.row := by omega
      exact hF 0 (Nat.succ_pos n)
    rw [rams, ram_pixel hcmd, Panel.pixel, hgram]
    have hlast := hfit (Nat.succ_pos n)
    by_cases hend : p.col = p.colEnd
    · -- the last word of the row: the place has moved on, and nothing follows
      obtain rfl : n = 0 := by omega
      rw [if_pos hend]
      exact ⟨rfl, rfl, rfl⟩
    · rw [if_neg hend]
      have hrest := ih (j + 1)
        { p with gram := (⟨p.col, p.row, 1, 1⟩ : Rect).paint F p.gram, col := p.col + 1 }
        hcmd (fun _ => by dsimp only; omega) (by
          intro k hk
          dsimp only
          rw [Nat.add_assoc, Nat.add_assoc, Nat.add_comm 1 k]
          exact hF (k + 1) (by omega))
      rw [← Rect.paint_column]
      exact ⟨hrest.gram, hrest.colEnd, hrest.rowEnd⟩

/-- The cursor, the memory-write command and a row of words. -/
theorem drawRow_spec (f : Nat → BitVec 16) (F : Nat → Nat → BitVec 16) (xPos yPos : BitVec 16)
    (width : Nat) (p : Panel) (hx : xPos.toNat + width ≤ p.colEnd + 1)
    (hF : ∀ j, j < width → f j = F (xPos.toNat + j) yPos.toNat) :
    p.Shows ((⟨xPos.toNat, yPos.toNat, width, 1⟩ : Rect).paint F p.gram)
      (rams f width 0 ((tftlcdSetCursor xPos yPos p).reg cmdWriteColorCode)) := by
  rw [tftlcdSetCursor_spec, Panel.reg, if_pos rfl]
  have hrow := rams_spec f F width 0
    { p with
      cmd := cmdWriteColorCode
      args := []
      colStart := xPos.toNat
      rowStart := yPos.toNat
      col := xPos.toNat
      row := yPos.toNat } rfl (fun _ => hx) (by
        intro k hk
        rw [Nat.zero_add]
        exact hF k hk)
  exact ⟨hrow.gram, hrow.colEnd, hrow.rowEnd⟩

/-- Rows of words: `F` is the image they are the pixels of. -/
theorem drawRows_spec (f F : Nat → Nat → BitVec 16) (xPos yPos : BitVec 16) (width n i : Nat)
    (p : Panel) (hx : xPos.toNat + width ≤ p.colEnd + 1) (hy : yPos.toNat + i + n ≤ 2 ^ 16)
    (hF : ∀ k j, k < n → j < width → f (i + k) j = F (xPos.toNat + j) (yPos.toNat + i + k)) :
    p.Shows ((⟨xPos.toNat, yPos.toNat + i, width, n⟩ : Rect).paint F p.gram)
      (drawRows f xPos yPos width n i p) := by
  induction n generalizing i p with
  | zero => exact ⟨(Rect.paint_empty (.inr rfl)).symm, rfl, rfl⟩
  | succ n ih =>
    have hpos : (yPos + BitVec.ofNat 16 i).toNat = yPos.toNat + i := by
      rw [BitVec.toNat_add, BitVec.toNat_ofNat, Nat.add_mod_mod, Nat.mod_eq_of_lt (by omega)]
    have hrow := drawRow_spec (f i) F xPos (yPos + BitVec.ofNat 16 i) width p hx (by
      intro j hj
      rw [hpos]
      exact hF 0 j (Nat.succ_pos n) hj)
    have hrest := ih (i + 1) _ (by rw [hrow.colEnd]; exact hx) (by omega) (by
      intro k j hk hj
      rw [Nat.add_assoc i 1 k, Nat.add_comm 1 k, hF (k + 1) j (by omega) hj]
      congr 1
      omega)
    rw [hrow.gram, hpos, ← Nat.add_assoc, Rect.paint_row] at hrest
    exact hrow.trans hrest

end Stm32F407.Lcd
