import Stm32F407.Lcd.Panel

/-!
# Windows: `TFTLCD_SetWindow` and `TFTLCD_Clear`

`TFTLCD_SetWindow` sends the high byte of a coordinate as `Pos>8` where `TFTLCD_SetCursor` has
`Pos>>8`, so the panel puts `sent Pos` together: 256 more than the low byte for everything above 8.

* `windowLaw_iff`: a window arrives as it should iff each of its four coordinates is at most 8 or
  between 256 and 511. Then its pixels go where they should, and a full-screen window is cleared
  pixel by pixel.
* `fillsWindow_iff`: on the screen the pixels alone also go right when the two starts arrive and the
  window has one row.
* `tftlcdInit_clear_misses`: the window of `TFTLCD_Init` is 496 columns wide, and the `TFTLCD_Clear`
  after it never gets to the rows from 155 on.
-/

namespace Stm32F407.Lcd

open Stm32F407.Lib

/-- `Pos>8`, as a word. -/
def gt8 (pos : BitVec 16) : BitVec 16 := if pos > 8 then 1 else 0

/-- `TFTLCD_SetWindow`. -/
def tftlcdSetWindow (starXPos endXPos starYPos endYPos : BitVec 16) (p : Panel) : Panel :=
  let p := p.reg cmdWriteXPos
  let p := p.ram (gt8 starXPos)
  let p := p.ram (starXPos &&& 0xFF)
  let p := p.ram (gt8 endXPos)
  let p := p.ram (endXPos &&& 0xFF)
  let p := p.reg cmdWriteYPos
  let p := p.ram (gt8 starYPos)
  let p := p.ram (starYPos &&& 0xFF)
  let p := p.ram (gt8 endYPos)
  p.ram (endYPos &&& 0xFF)

/-- `TFTLCD_Conf.TFTLCD_Width`. -/
def tftlcdWidth : Nat := 240

/-- `TFTLCD_Conf.TFTLCD_Height`. -/
def tftlcdHeight : Nat := 320

/-- `TFTLCD_Clear` up to its loop. -/
def clearHead (p : Panel) : Panel := (tftlcdSetCursor 0 0 p).reg cmdWriteColorCode

/-- `TFTLCD_Clear`. -/
def tftlcdClear (color : BitVec 32) (p : Panel) : Panel :=
  rams (fun _ => rgbToU16 color) (tftlcdHeight * tftlcdWidth) 0 (clearHead p)

/-! ## What they should do -/

/-- Where pixel `k` goes when the words `f` are written. -/
def Panel.place (f : Nat → BitVec 16) (k : Nat) (p : Panel) : Nat × Nat :=
  ((rams f k 0 p).col, (rams f k 0 p).row)

/-- The pixels written after the window has been set fill it row by row. -/
def FillsWindow (starXPos endXPos starYPos endYPos : BitVec 16) (p : Panel) : Prop :=
  let w := endXPos.toNat - starXPos.toNat + 1
  let h := endYPos.toNat - starYPos.toNat + 1
  ∀ f k, k < w * h →
    ((tftlcdSetWindow starXPos endXPos starYPos endYPos p).reg cmdWriteColorCode).place f k =
      (starXPos.toNat + k % w, starYPos.toNat + k / w)

/-- `TFTLCD_Clear` writes every pixel of the screen once, and leaves it with the colour. -/
def ClearsOnce (color : BitVec 32) (p : Panel) : Prop :=
  ∀ x y, x < tftlcdWidth → y < tftlcdHeight →
    (∃! k, k < tftlcdHeight * tftlcdWidth ∧
      (clearHead p).place (fun _ => rgbToU16 color) k = (x, y)) ∧
    (tftlcdClear color p).gram x y = rgbToU16 color

/-- What `TFTLCD_SetWindow` should do. -/
structure WindowLaw (starXPos endXPos starYPos endYPos : BitVec 16) (p : Panel) : Prop where
  colStart : (tftlcdSetWindow starXPos endXPos starYPos endYPos p).colStart = starXPos.toNat
  colEnd : (tftlcdSetWindow starXPos endXPos starYPos endYPos p).colEnd = endXPos.toNat
  rowStart : (tftlcdSetWindow starXPos endXPos starYPos endYPos p).rowStart = starYPos.toNat
  rowEnd : (tftlcdSetWindow starXPos endXPos starYPos endYPos p).rowEnd = endYPos.toNat
  /-- As `TFTLCD_SetCursor` does. -/
  cursor : (tftlcdSetCursor starXPos starYPos p).colStart = starXPos.toNat ∧
    (tftlcdSetCursor starXPos starYPos p).rowStart = starYPos.toNat
  fills : endXPos.toNat < tftlcdWidth → endYPos.toNat < tftlcdHeight →
    FillsWindow starXPos endXPos starYPos endYPos p
  /-- The window of `TFTLCD_Init`. -/
  cleared : starXPos.toNat = 0 → endXPos.toNat = tftlcdWidth - 1 → starYPos.toNat = 0 →
    endYPos.toNat = tftlcdHeight - 1 →
    ∀ color, ClearsOnce color (tftlcdSetWindow starXPos endXPos starYPos endYPos p)

/-! ## Coordinates -/

/-- What the panel puts together for a coordinate of `TFTLCD_SetWindow`. -/
def sent (pos : BitVec 16) : Nat := coord (gt8 pos) (pos &&& 0xFF)

/-- A coordinate that arrives. -/
def Arrives (pos : BitVec 16) : Prop := pos.toNat ≤ 8 ∨ 256 ≤ pos.toNat ∧ pos.toNat < 512

instance (pos : BitVec 16) : Decidable (Arrives pos) := inferInstanceAs (Decidable (_ ∨ _))

theorem sent_eq (pos : BitVec 16) :
    sent pos = (if 8 < pos.toNat then 256 else 0) + pos.toNat % 256 := by
  have hgt : pos > 8 ↔ 8 < pos.toNat := BitVec.lt_def
  unfold sent coord gt8
  rw [toNat_lowByte, Nat.mod_mod]
  simp only [hgt]
  split <;> rfl

theorem sent_eq_iff (pos : BitVec 16) : sent pos = pos.toNat ↔ Arrives pos := by
  have hlt := pos.isLt
  rw [sent_eq, Arrives]
  split <;> omega

/-- On the screen no coordinate arrives too small. -/
theorem le_sent {pos : BitVec 16} (h : pos.toNat < 512) : pos.toNat ≤ sent pos := by
  rw [sent_eq]
  split <;> omega

theorem tftlcdSetWindow_spec (starXPos endXPos starYPos endYPos : BitVec 16) (p : Panel) :
    tftlcdSetWindow starXPos endXPos starYPos endYPos p =
      { p with
        cmd := cmdWriteYPos
        args := [gt8 starYPos, starYPos &&& 0xFF, gt8 endYPos, endYPos &&& 0xFF]
        colStart := sent starXPos
        colEnd := sent endXPos
        rowStart := sent starYPos
        rowEnd := sent endYPos } := by
  simp [tftlcdSetWindow, Panel.reg, Panel.ram, Panel.column, Panel.page, cmdWriteXPos,
    cmdWriteYPos, cmdWriteColorCode, sent]

/-! ## Pixels -/

/-- The window of the panel. -/
def Panel.window (p : Panel) : Rect where
  x := p.colStart
  y := p.rowStart
  w := p.colEnd + 1 - p.colStart
  h := p.rowEnd + 1 - p.rowStart

/-- The panel is at pixel `k` of the window `r`. -/
structure Scanning (r : Rect) (k : Nat) (p : Panel) : Prop where
  cmd : p.cmd = cmdWriteColorCode
  window : p.window = r
  cell : (p.col, p.row) = r.cell k

variable {r : Rect} {p : Panel}

/-- A word moves on by one pixel. -/
theorem Scanning.ram {k : Nat} (h : Scanning r k p) (hw : 0 < r.w) (hh : 0 < r.h)
    (d : BitVec 16) : Scanning r (k + 1) (p.ram d) := by
  obtain ⟨hcmd, rfl, hcell⟩ := h
  have hcol : p.col + 1 = p.window.x + p.window.w ↔ p.col = p.colEnd := by
    simp only [Panel.window] at hw ⊢
    omega
  have hrow : p.row + 1 = p.window.y + p.window.h ↔ p.row = p.rowEnd := by
    simp only [Panel.window] at hh ⊢
    omega
  have hsucc := Rect.cell_succ hw hh k
  rw [← hcell] at hsucc
  simp only [hcol, hrow] at hsucc
  rw [ram_pixel hcmd, Panel.pixel]
  by_cases hx : p.col = p.colEnd
  · rw [if_pos hx] at hsucc ⊢
    exact ⟨hcmd, rfl, hsucc.symm⟩
  · rw [if_neg hx] at hsucc ⊢
    exact ⟨hcmd, rfl, hsucc.symm⟩

theorem Scanning.rams {k : Nat} (h : Scanning r k p) (hw : 0 < r.w) (hh : 0 < r.h)
    (f : Nat → BitVec 16) (n j : Nat) : Scanning r (k + n) (rams f n j p) := by
  induction n generalizing k j p with
  | zero => exact h
  | succ n ih =>
    have hrest := ih (h.ram hw hh (f j)) (j + 1)
    rw [Nat.add_assoc, Nat.add_comm 1 n] at hrest
    exact hrest

/-- **Pixel `k`** after the memory-write command goes to cell `k` of the window. -/
theorem place_eq (hx : p.colStart ≤ p.colEnd) (hy : p.rowStart ≤ p.rowEnd)
    (f : Nat → BitVec 16) (k : Nat) :
    (p.reg cmdWriteColorCode).place f k = p.window.cell k := by
  have hw : 0 < p.window.w := Nat.sub_pos_of_lt (Nat.lt_succ_of_le hx)
  have hh : 0 < p.window.h := Nat.sub_pos_of_lt (Nat.lt_succ_of_le hy)
  have hstart : Scanning p.window 0 (p.reg cmdWriteColorCode) := by
    rw [Panel.reg, if_pos rfl]
    refine ⟨rfl, rfl, ?_⟩
    rw [Rect.cell_zero]
    rfl
  have hend := (hstart.rams hw hh f k 0).cell
  rw [Nat.zero_add] at hend
  exact hend

section Window

variable {starXPos endXPos starYPos endYPos : BitVec 16}

theorem setWindow_place (hx : sent starXPos ≤ sent endXPos) (hy : sent starYPos ≤ sent endYPos)
    (f : Nat → BitVec 16) (k : Nat) :
    ((tftlcdSetWindow starXPos endXPos starYPos endYPos p).reg cmdWriteColorCode).place f k =
      (⟨sent starXPos, sent starYPos, sent endXPos + 1 - sent starXPos,
        sent endYPos + 1 - sent starYPos⟩ : Rect).cell k := by
  rw [tftlcdSetWindow_spec]
  exact place_eq hx hy f k

/-- The pixels go right when the starts have arrived, the ends are not too small, and the column end
has arrived unless there is one row only. -/
theorem fillsWindow_of_sent (hx : starXPos ≤ endXPos) (hy : starYPos ≤ endYPos)
    (hsx : sent starXPos = starXPos.toNat) (hsy : sent starYPos = starYPos.toNat)
    (hex : endXPos.toNat ≤ sent endXPos) (hey : endYPos.toNat ≤ sent endYPos)
    (hrow : sent endXPos = endXPos.toNat ∨ starYPos = endYPos) :
    FillsWindow starXPos endXPos starYPos endYPos p := by
  rw [BitVec.le_def] at hx hy
  intro f k hk
  generalize hw : endXPos.toNat - starXPos.toNat + 1 = w at hk ⊢
  generalize hh : endYPos.toNat - starYPos.toNat + 1 = h at hk
  have hcells : w * h ≤ (sent endXPos + 1 - starXPos.toNat) * (sent endYPos + 1 - starYPos.toNat) :=
    Nat.mul_le_mul (by omega) (by omega)
  rw [setWindow_place (by omega) (by omega), hsx, hsy,
    Rect.cell_of_lt (Nat.lt_of_lt_of_le hk hcells)]
  rcases hrow with hend | hone
  · have hwidth : sent endXPos + 1 - starXPos.toNat = w := by omega
    rw [hwidth]
  · obtain rfl : h = 1 := by
      rw [← hh, hone, Nat.sub_self]
    rw [Nat.mul_one] at hk
    have hlt : k < sent endXPos + 1 - starXPos.toNat := by omega
    rw [Nat.mod_eq_of_lt hk, Nat.div_eq_of_lt hk, Nat.mod_eq_of_lt hlt, Nat.div_eq_of_lt hlt]

/-- **When the pixels go right**, for a window on the screen. -/
theorem fillsWindow_iff (hx : starXPos ≤ endXPos) (hy : starYPos ≤ endYPos)
    (hex : endXPos.toNat < tftlcdWidth) (hey : endYPos.toNat < tftlcdHeight) :
    FillsWindow starXPos endXPos starYPos endYPos p ↔
      Arrives starXPos ∧ Arrives starYPos ∧ (Arrives endXPos ∨ starYPos = endYPos) := by
  have hcol := le_sent (Nat.lt_trans hex (by decide))
  have hrow := le_sent (Nat.lt_trans hey (by decide))
  rw [← sent_eq_iff, ← sent_eq_iff, ← sent_eq_iff]
  constructor
  · intro hfill
    have hfirst := hfill (fun _ => 0) 0 (Nat.mul_pos (Nat.succ_pos _) (Nat.succ_pos _))
    rw [tftlcdSetWindow_spec, Nat.zero_mod, Nat.zero_div, Prod.mk.injEq] at hfirst
    obtain ⟨hsx, hsy⟩ : sent starXPos = starXPos.toNat ∧ sent starYPos = starYPos.toNat := hfirst
    refine ⟨hsx, hsy, ?_⟩
    rw [BitVec.le_def] at hx hy
    by_cases hone : starYPos = endYPos
    · exact .inr hone
    · -- the first pixel of the second row would be in the first one
      have hne : starYPos.toNat ≠ endYPos.toNat := fun h => hone (BitVec.eq_of_toNat_eq h)
      have hsecond := hfill (fun _ => 0) (endXPos.toNat - starXPos.toNat + 1)
        ((Nat.lt_mul_iff_one_lt_right (Nat.succ_pos _)).mpr (by omega))
      rw [setWindow_place (by omega) (by omega), Rect.cell, Nat.mod_self, Prod.mk.injEq] at hsecond
      refine .inl (Nat.le_antisymm (Nat.le_of_not_lt fun hgt => ?_) hcol)
      have hcolumn := hsecond.1
      rw [Nat.mod_eq_of_lt (by dsimp only; omega)] at hcolumn
      dsimp only at hcolumn
      omega
  · rintro ⟨hsx, hsy, hend⟩
    exact fillsWindow_of_sent hx hy hsx hsy hcol hrow hend

end Window

theorem rams_index (d : BitVec 16) (n i j : Nat) (p : Panel) :
    rams (fun _ => d) n i p = rams (fun _ => d) n j p := by
  induction n generalizing i j p with
  | zero => rfl
  | succ n ih => exact ih (i + 1) (j + 1) (p.ram d)

theorem place_succ (d : BitVec 16) (k : Nat) (p : Panel) :
    p.place (fun _ => d) (k + 1) = (p.ram d).place (fun _ => d) k := by
  unfold Panel.place
  rw [rams, rams_index d k (0 + 1) 0]

/-- A pixel that has the colour keeps it. -/
theorem rams_keeps {d : BitVec 16} {x y : Nat} (n j : Nat) (hcmd : p.cmd = cmdWriteColorCode)
    (h : p.gram x y = d) : (rams (fun _ => d) n j p).gram x y = d := by
  induction n generalizing j p with
  | zero => exact h
  | succ n ih =>
    have hgram : (⟨p.col, p.row, 1, 1⟩ : Rect).paint (fun _ _ => d) p.gram x y = d := by
      unfold Rect.paint
      split
      · rfl
      · exact h
    rw [rams, ram_pixel hcmd, Panel.pixel]
    split
    · exact ih (j + 1) hcmd hgram
    · exact ih (j + 1) hcmd hgram

/-- A pixel that is written has the colour. -/
theorem rams_writes {d : BitVec 16} {x y : Nat} (n k j : Nat) (hcmd : p.cmd = cmdWriteColorCode)
    (hk : k < n) (h : p.place (fun _ => d) k = (x, y)) :
    (rams (fun _ => d) n j p).gram x y = d := by
  induction n generalizing j k p with
  | zero => omega
  | succ n ih =>
    have hcmd' : (p.ram d).cmd = cmdWriteColorCode := by
      rw [ram_pixel hcmd, Panel.pixel]
      split <;> exact hcmd
    rw [rams]
    cases k with
    | zero =>
      apply rams_keeps n (j + 1) hcmd'
      have hcell : p.col = x ∧ p.row = y := Prod.mk.inj h
      have hhas : (⟨p.col, p.row, 1, 1⟩ : Rect).Has x y := by
        rw [Rect.has_rect]
        omega
      rw [ram_pixel hcmd, Panel.pixel]
      split <;> exact if_pos hhas
    | succ k => exact ih k (j + 1) hcmd' (by omega) (by rw [← h, place_succ])

/-- On a full-screen window `TFTLCD_Clear` writes every pixel once. -/
theorem clearsOnce_of_fullScreen (h : p.FullScreen) (color : BitVec 32) : ClearsOnce color p := by
  intro x y hx hy
  have hplace := place_eq (p := tftlcdSetCursor 0 0 p)
    (by rw [tftlcdSetCursor_spec]; exact Nat.zero_le _)
    (by rw [tftlcdSetCursor_spec]; exact Nat.zero_le _) (fun _ => rgbToU16 color)
  have hwindow : (tftlcdSetCursor 0 0 p).window = ⟨0, 0, tftlcdWidth, tftlcdHeight⟩ := by
    rw [tftlcdSetCursor_spec, Panel.window]
    simp [h.colEnd, h.rowEnd, tftlcdWidth, tftlcdHeight]
  have hhas : (⟨0, 0, tftlcdWidth, tftlcdHeight⟩ : Rect).Has x y := by
    rw [Rect.has_rect]
    omega
  have honce : ∃! k, k < tftlcdHeight * tftlcdWidth ∧
      (clearHead p).place (fun _ => rgbToU16 color) k = (x, y) := by
    simp only [clearHead, hplace, hwindow, Nat.mul_comm tftlcdHeight]
    exact Rect.existsUnique_cell hhas
  obtain ⟨k, hk, hcell⟩ := honce.exists
  refine ⟨honce, ?_⟩
  rw [tftlcdClear]
  exact rams_writes _ k 0 rfl hk hcell

/-- **When a window arrives.** -/
theorem windowLaw_iff (starXPos endXPos starYPos endYPos : BitVec 16) (p : Panel)
    (hx : starXPos ≤ endXPos) (hy : starYPos ≤ endYPos) :
    WindowLaw starXPos endXPos starYPos endYPos p ↔
      Arrives starXPos ∧ Arrives endXPos ∧ Arrives starYPos ∧ Arrives endYPos := by
  have hspec := tftlcdSetWindow_spec starXPos endXPos starYPos endYPos p
  rw [← sent_eq_iff, ← sent_eq_iff, ← sent_eq_iff, ← sent_eq_iff]
  constructor
  · rintro ⟨hsx, hex, hsy, hey, -, -, -⟩
    rw [hspec] at hsx hex hsy hey
    exact ⟨hsx, hex, hsy, hey⟩
  · rintro ⟨hsx, hex, hsy, hey⟩
    constructor
    · rw [hspec]
      exact hsx
    · rw [hspec]
      exact hex
    · rw [hspec]
      exact hsy
    · rw [hspec]
      exact hey
    · rw [tftlcdSetCursor_spec]
      exact ⟨rfl, rfl⟩
    · intro _ _
      exact fillsWindow_of_sent hx hy hsx hsy (Nat.le_of_eq hex.symm)
        (Nat.le_of_eq hey.symm) (.inl hex)
    · intro _ hwidth _ hheight color
      apply clearsOnce_of_fullScreen
      rw [hspec]
      exact ⟨hex.trans hwidth, hey.trans hheight⟩

/-- The lower left corner of the screen. -/
theorem windowLaw_corner :
    WindowLaw 0 8 256 319 ⟨0, [], 0, 239, 0, 319, 0, 0, fun _ _ => 0xFFFF⟩ :=
  (windowLaw_iff 0 8 256 319 _ (by decide) (by decide)).mpr (by decide)

/-- **The window of `TFTLCD_Init`**: its column end arrives as 495, and the `TFTLCD_Clear` after it
never gets to the rows from 155 on. -/
theorem tftlcdInit_clear_misses (color : BitVec 32) (p : Panel) (x y k : Nat) (hy : 155 ≤ y)
    (hk : k < tftlcdHeight * tftlcdWidth) :
    (clearHead (tftlcdSetWindow 0 239 0 319 p)).place (fun _ => rgbToU16 color) k ≠ (x, y) := by
  have hends : sent 239 = 495 ∧ sent 319 = 319 := by decide
  have hplace := place_eq (p := tftlcdSetCursor 0 0 (tftlcdSetWindow 0 239 0 319 p))
    (by rw [tftlcdSetCursor_spec]; exact Nat.zero_le _)
    (by rw [tftlcdSetCursor_spec]; exact Nat.zero_le _) (fun _ => rgbToU16 color) k
  rw [clearHead, hplace, tftlcdSetCursor_spec, tftlcdSetWindow_spec, hends.1, hends.2]
  intro heq
  have hrow := congrArg Prod.snd heq
  have hzero : BitVec.toNat (0 : BitVec 16) = 0 := rfl
  simp only [Rect.cell, Panel.window, hzero] at hrow
  rw [tftlcdHeight, tftlcdWidth] at hk
  omega

/-- `TFTLCD_Init` does not get the window it asks for, and does not clear the screen. -/
theorem windowLaw_fails_init :
    (tftlcdSetWindow 0 239 0 319 ⟨0, [], 0, 239, 0, 319, 0, 0, fun _ _ => 0xFFFF⟩).colEnd = 495 ∧
      ¬ WindowLaw 0 239 0 319 ⟨0, [], 0, 239, 0, 319, 0, 0, fun _ _ => 0xFFFF⟩ ∧
      ¬ ClearsOnce 0xFFFFFF
        (tftlcdSetWindow 0 239 0 319 ⟨0, [], 0, 239, 0, 319, 0, 0, fun _ _ => 0xFFFF⟩) := by
  have hend : sent 239 = 495 := by decide
  refine ⟨?_, fun hlaw => ?_, fun hclear => ?_⟩
  · rw [tftlcdSetWindow_spec]
    exact hend
  · have hcol := hlaw.colEnd
    rw [tftlcdSetWindow_spec] at hcol
    exact absurd (hend.symm.trans hcol) (by decide)
  · obtain ⟨⟨k, ⟨hk, hplace⟩, -⟩, -⟩ := hclear 0 319 (by decide) (by decide)
    exact tftlcdInit_clear_misses _ _ _ _ k (by decide) hk hplace

end Stm32F407.Lcd
