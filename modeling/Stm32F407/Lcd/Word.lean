import Stm32F407.Lcd.Window

/-!
# Characters: `TFTLCD_Word`

A character is drawn row by row from two bytes of its bitmap, which are shifted out of a 16-bit
register. That is the layout of the 12- and 16-pixel fonts; a row of the 24-pixel font has three
bytes. `WordBuff` is the bitmap, and a read outside it makes the call fail (`none`).

* `wordRows_eq`: the loops draw the picture of `codeBit`, the bits that are shifted out.
* `glyphLaw_iff`: the character is right iff the font has 12 or 16 pixels, or the two colours do not
  differ, or nothing is set in the bitmap behind its first two bytes.
-/

namespace Stm32F407.Lcd

open Stm32F407.Lib

/-- `TFTLCD_Word_PropType`. -/
structure TftlcdWordProp where
  xPix : BitVec 16
  yPix : BitVec 16
  fontSize : BitVec 8
  fontType : BitVec 8
  fontFg : BitVec 32
  fontBg : BitVec 32
  wordBuff : List (BitVec 8)
deriving DecidableEq, Repr

/-- The loop of `TFTLCD_Word` over `n` more columns. -/
def wordCols (fg bg : BitVec 16) : Nat → BitVec 16 → Panel → Panel
  | 0, _, p => p
  | n + 1, rowValue, p =>
    wordCols fg bg n (rowValue <<< 1) (p.ram (if rowValue &&& 0x8000 ≠ 0 then fg else bg))

/-- `(Hi<<8)|Lo`, in an `uint16_t`. -/
def rowValueOf (hi lo : BitVec 8) : BitVec 16 := (hi.setWidth 16 <<< 8) ||| lo.setWidth 16

/-- The loop of `TFTLCD_Word` over `n` more rows, from `row` on. -/
def wordRows (xPix yPix : BitVec 16) (obj : TftlcdWordProp) : Nat → Nat → Panel → Option Panel
  | 0, _, p => some p
  | n + 1, row, p => do
    let hi ← obj.wordBuff[2 * row]?
    let lo ← obj.wordBuff[2 * row + 1]?
    let p := tftlcdSetCursor xPix (yPix + BitVec.ofNat 16 row) p
    wordRows xPix yPix obj n (row + 1)
      (wordCols (obj.fontFg.setWidth 16) (obj.fontBg.setWidth 16) obj.fontSize.toNat
        (rowValueOf hi lo) (p.reg cmdWriteColorCode))

/-- `TFTLCD_Word`. -/
def tftlcdWord (xPix yPix : BitVec 16) (obj : TftlcdWordProp) (p : Panel) :
    Option (TftlcdWordProp × Panel) :=
  let obj := { obj with xPix, yPix }
  (wordRows xPix yPix obj obj.fontSize.toNat 0 p).map fun p => (obj, p)

/-! ## What a character is -/

/-- `FONT_PIXED_SIZE12`, `FONT_PIXED_SIZE16` and `FONT_PIXED_SIZE24`. -/
inductive FontPixedSize where
  | size12
  | size16
  | size24
deriving DecidableEq, Repr

namespace FontPixedSize

/-- The rows and columns of a character. -/
def pixels : FontPixedSize → Nat
  | size12 => 0x0C
  | size16 => 0x10
  | size24 => 0x18

/-- `WORD_BUFF_DEFAULT_SIZE`: the bytes of a bitmap. -/
def wordBuffSize : FontPixedSize → Nat
  | size12 => 0x18
  | size16 => 0x20
  | size24 => 0x48

/-- The bytes of a row. -/
def stride (F : FontPixedSize) : Nat := (F.pixels + 7) / 8

end FontPixedSize

/-- A byte of a bitmap. -/
def byteAt (buff : List (BitVec 8)) (i : Nat) : BitVec 8 := (buff[i]?).getD 0

/-- The pixel at row `r` and column `c` of a bitmap. -/
def glyphBit (F : FontPixedSize) (buff : List (BitVec 8)) (r c : Nat) : Bool :=
  (byteAt buff (r * F.stride + c / 8)).getMsbD (c % 8)

/-- What `TFTLCD_Word` should do: it reads inside the bitmap, draws its pixels in the cell and
changes nothing outside. -/
def GlyphLaw (F : FontPixedSize) (xPix yPix : BitVec 16) (obj : TftlcdWordProp) (p : Panel) :
    Prop :=
  ∃ obj' q, tftlcdWord xPix yPix obj p = some (obj', q) ∧
    (∀ r c, r < F.pixels → c < F.pixels → q.gram (xPix.toNat + c) (yPix.toNat + r) =
      if glyphBit F obj.wordBuff r c then obj.fontFg.setWidth 16 else obj.fontBg.setWidth 16) ∧
    ∀ px py, ¬ (⟨xPix.toNat, yPix.toNat, F.pixels, F.pixels⟩ : Rect).Has px py →
      q.gram px py = p.gram px py

variable {obj : TftlcdWordProp} {xPix yPix : BitVec 16} {p : Panel}

/-! ## The loops -/

theorem and_highBit (v : BitVec 16) : v &&& 0x8000 ≠ 0 ↔ v.msb = true := by
  have hand : v &&& 0x8000 = if v.getLsbD 15 then 0x8000 else 0 := BitVec.and_twoPow v 15
  have hmsb : v.msb = v.getLsbD 15 := BitVec.msb_eq_getLsbD_last v
  rw [hand, hmsb]
  cases v.getLsbD 15 <;> decide

/-- The bits of a row are shifted out one by one, zeros behind the sixteenth. -/
theorem wordCols_eq_rams (fg bg v : BitVec 16) (n j : Nat) (p : Panel) :
    wordCols fg bg n (v <<< j) p = rams (fun j => if v.getMsbD j then fg else bg) n j p := by
  induction n generalizing j p with
  | zero => rfl
  | succ n ih =>
    have hbit : (v <<< j) &&& 0x8000 ≠ 0 ↔ v.getMsbD j = true := by
      rw [and_highBit]
      simp [BitVec.msb]
    rw [wordCols, rams, ← BitVec.shiftLeft_add, ih]
    simp only [hbit]

/-- The bit that `TFTLCD_Word` draws at row `r` and column `c`. -/
def codeBit (buff : List (BitVec 8)) (r c : Nat) : Bool :=
  (rowValueOf (byteAt buff (2 * r)) (byteAt buff (2 * r + 1))).getMsbD c

/-- The colour it draws there. -/
def codeColour (obj : TftlcdWordProp) (r c : Nat) : BitVec 16 :=
  if codeBit obj.wordBuff r c then obj.fontFg.setWidth 16 else obj.fontBg.setWidth 16

/-- The loops draw rows of words, as long as the rows are in the bitmap. -/
theorem wordRows_eq (n row : Nat) (hlen : 2 * (row + n) ≤ obj.wordBuff.length) (p : Panel) :
    wordRows xPix yPix obj n row p =
      some (drawRows (codeColour obj) xPix yPix obj.fontSize.toNat n row p) := by
  induction n generalizing row p with
  | zero => rfl
  | succ n ih =>
    have hbyte : ∀ i, i < obj.wordBuff.length → obj.wordBuff[i]? = some (byteAt obj.wordBuff i) := by
      intro i hi
      rw [byteAt, List.getElem?_eq_getElem hi]
      rfl
    have hcols := wordCols_eq_rams (obj.fontFg.setWidth 16) (obj.fontBg.setWidth 16)
      (rowValueOf (byteAt obj.wordBuff (2 * row)) (byteAt obj.wordBuff (2 * row + 1)))
      obj.fontSize.toNat 0
    simp only [BitVec.shiftLeft_zero] at hcols
    rw [wordRows, hbyte _ (by omega), hbyte _ (by omega), drawRows]
    simp only [Option.bind_eq_bind, Option.bind_some]
    rw [hcols, ih (row + 1) (by omega)]
    rfl

/-! ## The picture -/

theorem rowValueOf_getMsbD (hi lo : BitVec 8) (c : Nat) :
    (rowValueOf hi lo).getMsbD c = if c < 8 then hi.getMsbD c else lo.getMsbD (c - 8) := by
  have hhi : (hi.setWidth 16 <<< 8).getMsbD c = hi.getMsbD c := by
    rw [BitVec.getMsbD_shiftLeft, BitVec.getMsbD_setWidth, decide_eq_true (by omega),
      Bool.true_and, Nat.add_assoc, Nat.add_sub_cancel]
  rw [rowValueOf, BitVec.getMsbD_or, hhi, BitVec.getMsbD_setWidth, Nat.add_sub_add_right c 8 8]
  split
  · rename_i hc
    rw [decide_eq_false (by omega), Bool.false_and, Bool.or_false]
  · rename_i hc
    rw [BitVec.getMsbD_of_ge hi c (by omega), decide_eq_true (by omega), Bool.true_and,
      Bool.false_or]

/-- The first byte of a row is drawn from byte `2 * r`. -/
theorem codeBit_low (buff : List (BitVec 8)) (r : Nat) {c : Nat} (hc : c < 8) :
    codeBit buff r c = (byteAt buff (2 * r)).getMsbD c := by
  rw [codeBit, rowValueOf_getMsbD, if_pos hc]

/-- Everything behind it is drawn from byte `2 * r + 1`, which has eight bits. -/
theorem codeBit_high (buff : List (BitVec 8)) (r c : Nat) :
    codeBit buff r (8 + c) = (byteAt buff (2 * r + 1)).getMsbD c := by
  rw [codeBit, rowValueOf_getMsbD, if_neg (by omega), Nat.add_sub_cancel_left]

/-- The pixels of byte `k` of a row. -/
theorem glyphBit_byte (F : FontPixedSize) (buff : List (BitVec 8)) (r k : Nat) {c : Nat}
    (hc : c < 8) : glyphBit F buff r (8 * k + c) = (byteAt buff (r * F.stride + k)).getMsbD c := by
  rw [glyphBit, Nat.mul_add_div (by omega), Nat.mul_add_mod, Nat.div_eq_of_lt hc,
    Nat.mod_eq_of_lt hc, Nat.add_zero]

/-- With two bytes to a row, the bits that are drawn are those of the bitmap. -/
theorem codeBit_eq_glyphBit {F : FontPixedSize} (hF : F ≠ .size24) (buff : List (BitVec 8))
    (r : Nat) {c : Nat} (hc : c < F.pixels) : codeBit buff r c = glyphBit F buff r c := by
  have hstride : F.stride = 2 ∧ F.pixels ≤ 16 := by
    cases F with
    | size12 => decide
    | size16 => decide
    | size24 => exact absurd rfl hF
  by_cases hlow : c < 8
  · have hbyte := glyphBit_byte F buff r 0 hlow
    rw [hstride.1, Nat.mul_zero, Nat.zero_add, Nat.add_zero, Nat.mul_comm] at hbyte
    rw [codeBit_low buff r hlow, hbyte]
  · obtain ⟨d, rfl⟩ := Nat.exists_eq_add_of_le (Nat.le_of_not_lt hlow)
    have hbyte := glyphBit_byte F buff r 1 (show d < 8 by omega)
    rw [hstride.1, Nat.mul_one, Nat.mul_comm r] at hbyte
    rw [codeBit_high, hbyte]

/-- Of the 24-pixel font, three bytes to a row: the bits are right iff each byte of a row is the one
that is drawn there, and the third is zero. -/
theorem codeBit_eq_glyphBit24_iff (buff : List (BitVec 8)) (r : Nat) :
    (∀ c, c < 24 → codeBit buff r c = glyphBit .size24 buff r c) ↔
      byteAt buff (2 * r) = byteAt buff (3 * r) ∧
        byteAt buff (2 * r + 1) = byteAt buff (3 * r + 1) ∧ byteAt buff (3 * r + 2) = 0 := by
  have hglyph : ∀ k c, c < 8 →
      glyphBit .size24 buff r (8 * k + c) = (byteAt buff (3 * r + k)).getMsbD c := by
    intro k c hc
    rw [glyphBit_byte .size24 buff r k hc, Nat.mul_comm 3 r]
    rfl
  constructor
  · intro h
    refine ⟨?_, ?_, ?_⟩
    · apply BitVec.eq_of_getMsbD_eq
      intro c hc
      have hbit := h (8 * 0 + c) (by omega)
      rwa [hglyph 0 c hc, Nat.mul_zero, Nat.zero_add, codeBit_low buff r hc] at hbit
    · apply BitVec.eq_of_getMsbD_eq
      intro c hc
      have hbit := h (8 * 1 + c) (by omega)
      rwa [hglyph 1 c hc, Nat.mul_one, codeBit_high] at hbit
    · apply BitVec.eq_of_getMsbD_eq
      intro c hc
      have hbit := h (8 * 2 + c) (by omega)
      rw [hglyph 2 c hc, show 8 * 2 + c = 8 + (8 + c) by omega, codeBit_high,
        BitVec.getMsbD_of_ge _ _ (by omega)] at hbit
      rw [← hbit]
      exact BitVec.getMsbD_zero.symm
  · rintro ⟨h0, h1, h2⟩ c hc
    rcases Nat.lt_or_ge c 8 with hc0 | hc0
    · have hbyte := hglyph 0 c hc0
      rw [Nat.mul_zero, Nat.zero_add] at hbyte
      rw [codeBit_low buff r hc0, hbyte, h0]
      rfl
    · obtain ⟨d, rfl⟩ := Nat.exists_eq_add_of_le hc0
      rw [codeBit_high]
      rcases Nat.lt_or_ge d 8 with hd | hd
      · rw [show 8 + d = 8 * 1 + d by omega, hglyph 1 d hd, h1]
      · obtain ⟨e, rfl⟩ := Nat.exists_eq_add_of_le hd
        rw [show 8 + (8 + e) = 8 * 2 + e by omega, hglyph 2 e (by omega), h2,
          BitVec.getMsbD_of_ge _ _ hd]
        exact BitVec.getMsbD_zero.symm

/-- Byte by byte the rows of two bytes and the rows of three move apart, so a bitmap that looks the
same in both has nothing behind its first two bytes. -/
theorem bits24_iff (buff : List (BitVec 8)) :
    (∀ r c, r < 24 → c < 24 → codeBit buff r c = glyphBit .size24 buff r c) ↔
      ∀ i, 2 ≤ i → i < 72 → byteAt buff i = 0 := by
  constructor
  · intro h i
    have hrow := fun r hr => (codeBit_eq_glyphBit24_iff buff r).mp fun c hc => h r c hr hc
    induction i using Nat.strongRecOn with
    | ind i ih =>
      intro hlo hhi
      obtain ⟨h0, h1, h2⟩ := hrow (i / 3) (by omega)
      have hmod := Nat.mod_lt i (show 3 > 0 by omega)
      rcases show i = 3 * (i / 3) ∨ i = 3 * (i / 3) + 1 ∨ i = 3 * (i / 3) + 2 by omega
        with hi | hi | hi
      · rw [hi, ← h0]
        exact ih (2 * (i / 3)) (by omega) (by omega) (by omega)
      · rw [hi, ← h1]
        exact ih (2 * (i / 3) + 1) (by omega) (by omega) (by omega)
      · rw [hi, h2]
  · intro h r c hr hc
    refine (codeBit_eq_glyphBit24_iff buff r).mpr ?_ c hc
    have hlast := h (3 * r + 2) (by omega) (by omega)
    cases r with
    | zero => exact ⟨rfl, rfl, hlast⟩
    | succ r =>
      refine ⟨?_, ?_, hlast⟩
      · rw [h (2 * (r + 1)) (by omega) (by omega), h (3 * (r + 1)) (by omega) (by omega)]
      · rw [h (2 * (r + 1) + 1) (by omega) (by omega), h (3 * (r + 1) + 1) (by omega) (by omega)]

/-! ## The law -/

section

variable {F : FontPixedSize}

/-- The call reads inside the bitmap and draws the bits that are shifted out. -/
theorem tftlcdWord_spec (hsize : obj.fontSize.toNat = F.pixels)
    (hlen : obj.wordBuff.length = F.wordBuffSize) (hx : xPix.toNat + F.pixels ≤ tftlcdWidth)
    (hy : yPix.toNat + F.pixels ≤ tftlcdHeight) (hedge : tftlcdWidth ≤ p.colEnd + 1) :
    ∃ q, tftlcdWord xPix yPix obj p = some ({ obj with xPix, yPix }, q) ∧
      q.gram = (⟨xPix.toNat, yPix.toNat, F.pixels, F.pixels⟩ : Rect).paint
        (fun px py => codeColour obj (py - yPix.toNat) (px - xPix.toNat)) p.gram := by
  have hfit : 2 * (0 + F.pixels) ≤ obj.wordBuff.length := by
    rw [hlen]
    cases F <;> decide
  rw [tftlcdHeight] at hy
  refine ⟨drawRows (codeColour obj) xPix yPix F.pixels F.pixels 0 p, ?_, ?_⟩
  · have hrows := @wordRows_eq { obj with xPix, yPix } xPix yPix F.pixels 0 hfit p
    dsimp only at hrows
    rw [hsize] at hrows
    rw [tftlcdWord]
    dsimp only
    rw [hsize, hrows]
    rfl
  · refine (drawRows_spec _ _ xPix yPix F.pixels F.pixels 0 p (by omega) (by omega) ?_).gram
    intro k j hk hj
    rw [Nat.zero_add, Nat.add_zero, Nat.add_sub_cancel_left, Nat.add_sub_cancel_left]

/-- The law is about the two bits of each pixel. -/
theorem glyphLaw_iff_bits (hsize : obj.fontSize.toNat = F.pixels)
    (hlen : obj.wordBuff.length = F.wordBuffSize) (hx : xPix.toNat + F.pixels ≤ tftlcdWidth)
    (hy : yPix.toNat + F.pixels ≤ tftlcdHeight) (hedge : tftlcdWidth ≤ p.colEnd + 1) :
    GlyphLaw F xPix yPix obj p ↔ obj.fontFg.setWidth 16 = obj.fontBg.setWidth 16 ∨
      ∀ r c, r < F.pixels → c < F.pixels →
        codeBit obj.wordBuff r c = glyphBit F obj.wordBuff r c := by
  obtain ⟨q, hcall, hgram⟩ := tftlcdWord_spec hsize hlen hx hy hedge
  have hcell : ∀ r c, r < F.pixels → c < F.pixels → q.gram (xPix.toNat + c) (yPix.toNat + r) =
      codeColour obj r c := by
    intro r c hr hc
    rw [hgram, Rect.paint, if_pos (Rect.has_rect.mpr (by omega)),
      Nat.add_sub_cancel_left, Nat.add_sub_cancel_left]
  constructor
  · rintro ⟨obj', q', hcall', hpixel, -⟩
    rw [hcall, Option.some.injEq, Prod.mk.injEq] at hcall'
    obtain ⟨rfl, rfl⟩ := hcall'
    refine or_iff_not_imp_left.mpr fun hcolour r c hr hc => ?_
    have h := hpixel r c hr hc
    rw [hcell r c hr hc, codeColour] at h
    cases hcode : codeBit obj.wordBuff r c <;> cases hglyph : glyphBit F obj.wordBuff r c
    · rfl
    · exact absurd (by simpa [hcode, hglyph] using h.symm) hcolour
    · exact absurd (by simpa [hcode, hglyph] using h) hcolour
    · rfl
  · intro h
    refine ⟨_, q, hcall, ?_, ?_⟩
    · intro r c hr hc
      rw [hcell r c hr hc, codeColour]
      rcases h with hcolour | hbits
      · rw [hcolour, ite_self, ite_self]
      · rw [hbits r c hr hc]
    · intro px py hout
      rw [hgram]
      exact if_neg hout

end

/-- **When a character is right**: with two bytes to a row, with colours that do not differ, or with
nothing set behind the first two bytes of the bitmap. -/
theorem glyphLaw_iff (F : FontPixedSize) (xPix yPix : BitVec 16) (obj : TftlcdWordProp) (p : Panel)
    (hsize : obj.fontSize.toNat = F.pixels) (hlen : obj.wordBuff.length = F.wordBuffSize)
    (hx : xPix.toNat + F.pixels ≤ tftlcdWidth) (hy : yPix.toNat + F.pixels ≤ tftlcdHeight)
    (hedge : tftlcdWidth ≤ p.colEnd + 1) :
    GlyphLaw F xPix yPix obj p ↔
      F ≠ .size24 ∨ obj.fontFg.setWidth 16 = obj.fontBg.setWidth 16 ∨
        ∀ i, 2 ≤ i → i < obj.wordBuff.length → byteAt obj.wordBuff i = 0 := by
  rw [glyphLaw_iff_bits hsize hlen hx hy hedge]
  by_cases hF : F = .size24
  · subst hF
    have hbits := bits24_iff obj.wordBuff
    rw [hlen]
    exact (or_congr_right hbits).trans (or_iff_right (not_not_intro rfl)).symm
  · exact ⟨fun _ => .inl hF, fun _ => .inr fun r c _ hc => codeBit_eq_glyphBit hF _ r hc⟩

/-- A 16-pixel character at the lower right corner, with every bit set. -/
theorem glyphLaw_size16 :
    GlyphLaw .size16 224 304 ⟨0, 0, 16, 0, 0xFFFF, 0, List.replicate 32 0xFF⟩
      ⟨0, [], 0, 239, 0, 319, 0, 0, fun _ _ => 0⟩ :=
  (glyphLaw_iff .size16 224 304 _ _ rfl rfl (by decide) (by decide) (by decide)).mpr
    (.inl (by decide))

/-- A 24-pixel character with every bit set: from column 16 on it is drawn in the background
colour. -/
theorem glyphLaw_fails_size24 :
    ¬ GlyphLaw .size24 0 0 ⟨0, 0, 24, 0, 0xFFFF, 0, List.replicate 72 0xFF⟩
      ⟨0, [], 0, 239, 0, 319, 0, 0, fun _ _ => 0⟩ := by
  rw [glyphLaw_iff_bits rfl rfl (by decide) (by decide) (by decide)]
  rintro (hcolour | hbits)
  · exact absurd hcolour (by decide)
  · exact absurd (hbits 0 16 (by decide) (by decide)) (by decide)

end Stm32F407.Lcd
