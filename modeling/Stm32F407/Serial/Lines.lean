import Stm32F407.Lib.Bytes
import Stm32F407.Lib.Runs
import Mathlib.Data.List.Induction
import Mathlib.Logic.Function.Basic

/-!
# Lines from the serial ports: `uart.c`, `spi.c`

Model of `USART1_IRQHandler` and `SPI1_IRQHandler`. Each stores the byte it received into a global
array of 50 characters and closes the line at a line feed.

* An array is the memory around it, read by the index in the C expression, which may be negative or
  too large; every index that is stored at is recorded.
* `DataBit` is an `int` and `RxIndex` an 8-bit counter, as in the source. (`DataBit` overflows only
  2³¹ bytes into a line.)

`LineLaw` is what a handler should do with a stream: stay in the array, and frame every line.
* `usart_lines_iff`: the UART handler obeys it on a stream iff every line fits with its line feed
  and the terminator, and the unfinished one fits.
* `spi_lines_iff`: the SPI handler obeys it iff the stream has no line feed at all and at most 50
  bytes: it resets the index before it uses it, so it stores the terminator at index -1.
-/

namespace Stm32F407.Serial

open Stm32F407.Lib

/-! ## The handlers -/

/-- `'\n'`. -/
def newline : UInt8 := 10

/-- The size of `UsartReceiveData` and of `Spi1_ReceiveData`. -/
def receiveDataSize : Nat := 50

/-- An array with the memory around it, and the indices that were stored at. -/
structure RxBuffer where
  data : Int → UInt8
  written : List Int

/-- `data[i] = b`. -/
def RxBuffer.store (i : Int) (b : UInt8) (r : RxBuffer) : RxBuffer where
  data := Function.update r.data i b
  written := r.written ++ [i]

/-- `UsartReceiveData` and `DataBit`. -/
structure UsartRx where
  buffer : RxBuffer
  dataBit : Int

/-- `USART1_IRQHandler`, with the byte in the receive register, if there is one. -/
def usart1IRQHandler (rx : Option UInt8) (s : UsartRx) : UsartRx :=
  match rx with
  | none => s
  | some rxData =>
    let s : UsartRx := ⟨s.buffer.store s.dataBit rxData, s.dataBit + 1⟩
    if rxData = newline then ⟨s.buffer.store s.dataBit 0, 0⟩ else s

/-- `Spi1_ReceiveData` and `RxIndex`. -/
structure SpiRx where
  buffer : RxBuffer
  rxIndex : UInt8

/-- `SPI1_IRQHandler`, with the byte in the receive register, if there is one. -/
def spi1IRQHandler (rx : Option UInt8) (s : SpiRx) : SpiRx :=
  match rx with
  | none => s
  | some rxData =>
    let s : SpiRx := ⟨s.buffer.store s.rxIndex.toNat rxData, s.rxIndex + 1⟩
    if rxData = newline then
      let s : SpiRx := ⟨s.buffer, 0⟩
      ⟨s.buffer.store (s.rxIndex.toNat - 1) 0, s.rxIndex⟩
    else s

/-- One received byte. -/
def UsartRx.step (s : UsartRx) (b : UInt8) : UsartRx := usart1IRQHandler (some b) s

/-- One received byte. -/
def SpiRx.step (s : SpiRx) (b : UInt8) : SpiRx := spi1IRQHandler (some b) s

/-- The UART before the first byte. -/
def UsartRx.start (data : Int → UInt8) : UsartRx := ⟨⟨data, []⟩, 0⟩

/-- The SPI before the first byte. -/
def SpiRx.start (data : Int → UInt8) : SpiRx := ⟨⟨data, []⟩, 0⟩

/-! ## The law -/

/-- A line starts after `pre`. -/
def LineStart (pre : List UInt8) : Prop := pre = [] ∨ pre.getLast? = some newline

/-- **The law of a line receiver**, where a line ends as `tail` in the array: no index outside the
array is stored at; and right after a line feed, if the line fits, the array starts with it and the
next byte goes to index 0. -/
structure LineLaw {σ : Type} (step : σ → UInt8 → σ) (buffer : σ → RxBuffer) (tail : List UInt8)
    (s : σ) (bs : List UInt8) : Prop where
  bounded : ∀ i ∈ (buffer (run step s bs)).written, 0 ≤ i ∧ i < receiveDataSize
  framed : ∀ pre line, pre ++ line ++ [newline] <+: bs → LineStart pre → newline ∉ line →
    (line ++ tail).length ≤ receiveDataSize →
    readRun (fun i : Nat => (buffer (run step s (pre ++ line ++ [newline]))).data i) 0
        (line ++ tail).length = line ++ tail ∧
      ∀ b, (buffer (run step s (pre ++ line ++ [newline]))).written ++ [0] <+:
        (buffer (step (run step s (pre ++ line ++ [newline])) b)).written

/-- Every line of the stream fits: its line feed and the terminator after it included, when `n`
bytes of the first line are already there. -/
def LinesFit : Nat → List UInt8 → Prop
  | _, [] => True
  | n, b :: bs =>
    if b = newline then n + 1 < receiveDataSize ∧ LinesFit 0 bs
    else n < receiveDataSize ∧ LinesFit (n + 1) bs

/-! ## The UART -/

theorem usart_step_newline (s : UsartRx) :
    s.step newline = ⟨(s.buffer.store s.dataBit newline).store (s.dataBit + 1) 0, 0⟩ := rfl

theorem usart_step_char (s : UsartRx) {b : UInt8} (hb : b ≠ newline) :
    s.step b = ⟨s.buffer.store s.dataBit b, s.dataBit + 1⟩ := by
  simp [UsartRx.step, usart1IRQHandler, hb]

/-- At the start of a line the index is 0. -/
theorem usart_dataBit_lineStart (data : Int → UInt8) {pre : List UInt8} (h : LineStart pre) :
    (run UsartRx.step (.start data) pre).dataBit = 0 := by
  rcases h with rfl | h
  · rfl
  · obtain ⟨l, rfl⟩ := List.getLast?_eq_some_iff.mp h
    rw [run_append]
    rfl

/-- The bytes of a line are stored one after the other from index 0. -/
theorem usart_run_line {s : UsartRx} (hs : s.dataBit = 0) {chars : List UInt8}
    (hchars : newline ∉ chars) :
    (run UsartRx.step s chars).dataBit = chars.length ∧
      ∀ i : Nat, i < chars.length →
        some ((run UsartRx.step s chars).buffer.data i) = chars[i]? := by
  induction chars using List.reverseRecOn with
  | nil => exact ⟨hs, fun i hi => absurd hi (Nat.not_lt_zero i)⟩
  | append_singleton l b ih =>
    rw [List.mem_append, List.mem_singleton, not_or] at hchars
    obtain ⟨hbit, hdata⟩ := ih hchars.1
    rw [run_append, run_cons, run_nil, usart_step_char _ (Ne.symm hchars.2)]
    refine ⟨by simp [hbit], fun i hi => ?_⟩
    simp only [RxBuffer.store, hbit]
    by_cases he : i = l.length
    · simp [he]
    · have hlt : i < l.length := by
        simp only [List.length_append, List.length_singleton] at hi
        omega
      rw [Function.update_of_ne (by omega), hdata i hlt, List.getElem?_append_left hlt]

/-- The UART frames every line, whatever came before it. -/
theorem usart_framed (data : Int → UInt8) {pre line : List UInt8} (hpre : LineStart pre)
    (hline : newline ∉ line) :
    readRun (fun i : Nat =>
        (run UsartRx.step (.start data) (pre ++ line ++ [newline])).buffer.data i) 0
        (line ++ [newline, 0]).length = line ++ [newline, 0] ∧
      ∀ b, (run UsartRx.step (.start data) (pre ++ line ++ [newline])).buffer.written ++ [0] <+:
        ((run UsartRx.step (.start data) (pre ++ line ++ [newline])).step b).buffer.written := by
  obtain ⟨hbit, hdata⟩ := usart_run_line (usart_dataBit_lineStart data hpre) hline
  rw [run_append, run_append, run_cons, run_nil, usart_step_newline]
  constructor
  · apply List.ext_getElem?
    intro i
    by_cases hi : i < (line ++ [newline, 0]).length
    · rw [readRun_getElem? _ hi, Nat.zero_add]
      simp only [RxBuffer.store, hbit]
      simp only [List.length_append, List.length_cons, List.length_nil] at hi
      rcases Nat.lt_trichotomy i line.length with hlt | rfl | hgt
      · rw [Function.update_of_ne (by omega), Function.update_of_ne (by omega), hdata i hlt,
          List.getElem?_append_left hlt]
      · rw [Function.update_of_ne (by omega), Function.update_self]
        simp
      · obtain rfl : i = line.length + 1 := by omega
        push_cast
        rw [Function.update_self]
        simp
    · rw [List.getElem?_eq_none (by rw [readRun_length]; omega),
        List.getElem?_eq_none (by omega)]
  · intro b
    by_cases hb : b = newline
    · rw [hb, usart_step_newline]
      exact ⟨[0 + 1], by simp [RxBuffer.store]⟩
    · rw [usart_step_char _ hb]
      exact List.prefix_rfl

/-- The UART stays in the array iff the lines fit. -/
theorem usart_bounded_iff (bs : List UInt8) {s : UsartRx} {n : Nat} (hs : s.dataBit = n) :
    (∀ i ∈ (run UsartRx.step s bs).buffer.written, 0 ≤ i ∧ i < receiveDataSize) ↔
      (∀ i ∈ s.buffer.written, 0 ≤ i ∧ i < receiveDataSize) ∧ LinesFit n bs := by
  induction bs generalizing s n with
  | nil => simp [LinesFit]
  | cons b bs ih =>
    rw [run_cons]
    by_cases hb : b = newline
    · rw [hb, ih (n := 0) (by rw [usart_step_newline]; rfl), usart_step_newline, LinesFit,
        if_pos rfl, ← and_assoc]
      refine and_congr_left fun _ => ?_
      simp only [RxBuffer.store, List.append_assoc, List.forall_mem_append, hs]
      refine and_congr_right fun _ => ?_
      simp only [List.mem_singleton, forall_eq]
      omega
    · rw [ih (n := n + 1) (by rw [usart_step_char _ hb]; simp [hs]), usart_step_char _ hb, LinesFit,
        if_neg hb, ← and_assoc]
      refine and_congr_left fun _ => ?_
      simp only [RxBuffer.store, List.forall_mem_append, hs]
      refine and_congr_right fun _ => ?_
      simp only [List.mem_singleton, forall_eq]
      omega

/-- **USART line framing.** On every stream, `USART1_IRQHandler` stays in `UsartReceiveData` and
frames every line that fits iff all lines fit. -/
theorem usart_lines_iff (data : Int → UInt8) (bs : List UInt8) :
    LineLaw UsartRx.step UsartRx.buffer [newline, 0] (.start data) bs ↔ LinesFit 0 bs := by
  have hbounded := usart_bounded_iff bs (s := .start data) (n := 0) rfl
  constructor
  · intro h
    exact (hbounded.mp h.bounded).2
  · intro h
    refine ⟨hbounded.mpr ⟨fun i hi => absurd hi List.not_mem_nil, h⟩, ?_⟩
    intro pre line _ hpre hline _
    exact usart_framed data hpre hline

/-- 51 bytes without a line feed: the last is stored behind the array. -/
theorem usart_lines_long_line :
    ¬ LineLaw UsartRx.step UsartRx.buffer [newline, 0] (.start fun _ => 0)
      (List.replicate 51 65) := by
  intro h
  exact absurd (h.bounded 50 (by decide)).2 (by decide)

/-! ## The SPI -/

theorem spi_step_newline (s : SpiRx) :
    s.step newline = ⟨(s.buffer.store s.rxIndex.toNat newline).store (-1) 0, 0⟩ := rfl

theorem spi_step_char (s : SpiRx) {b : UInt8} (hb : b ≠ newline) :
    s.step b = ⟨s.buffer.store s.rxIndex.toNat b, s.rxIndex + 1⟩ := by
  simp [SpiRx.step, spi1IRQHandler, hb]

/-- The record of stores only grows. -/
theorem spi_written_grows (s : SpiRx) (bs : List UInt8) :
    s.buffer.written <+: (run SpiRx.step s bs).buffer.written := by
  induction bs generalizing s with
  | nil => exact List.prefix_rfl
  | cons b bs ih =>
    refine List.IsPrefix.trans ?_ (ih (s.step b))
    by_cases hb : b = newline
    · rw [hb, spi_step_newline]
      exact (List.prefix_append _ _).trans (List.prefix_append _ _)
    · rw [spi_step_char _ hb]
      exact List.prefix_append _ _

/-- A line feed stores the terminator in front of the array. -/
theorem spi_newline_written (s : SpiRx) : -1 ∈ (s.step newline).buffer.written := by
  rw [spi_step_newline]
  exact List.mem_append_right _ List.mem_cons_self

/-- Bytes without a line feed are stored one after the other from index 0. -/
theorem spi_run_chars (data : Int → UInt8) {bs : List UInt8} (hbs : newline ∉ bs)
    (hlen : bs.length < 256) :
    (run SpiRx.step (.start data) bs).rxIndex.toNat = bs.length ∧
      (run SpiRx.step (.start data) bs).buffer.written =
        (List.range bs.length).map Int.ofNat := by
  induction bs using List.reverseRecOn with
  | nil => exact ⟨rfl, rfl⟩
  | append_singleton l b ih =>
    rw [List.mem_append, List.mem_singleton, not_or] at hbs
    rw [List.length_append, List.length_singleton] at hlen ⊢
    obtain ⟨hidx, hwritten⟩ := ih hbs.1 (by omega)
    rw [run_append, run_cons, run_nil, spi_step_char _ (Ne.symm hbs.2)]
    refine ⟨?_, ?_⟩
    · rw [UInt8.toNat_add, hidx]
      exact Nat.mod_eq_of_lt hlen
    · rw [List.range_succ, List.map_append, ← hwritten]
      simp only [RxBuffer.store, hidx]
      rfl

/-- **SPI line framing.** `SPI1_IRQHandler` stays in `Spi1_ReceiveData` and frames every line that
fits iff there is no line at all: no line feed, and at most 50 bytes. -/
theorem spi_lines_iff (data : Int → UInt8) (bs : List UInt8) :
    LineLaw SpiRx.step SpiRx.buffer [0] (.start data) bs ↔
      newline ∉ bs ∧ bs.length ≤ receiveDataSize := by
  constructor
  · intro h
    have hno : newline ∉ bs := by
      intro hmem
      obtain ⟨pre, post, rfl⟩ := List.append_of_mem hmem
      have hb := h.bounded (-1) ?_
      · omega
      · rw [run_append, run_cons]
        exact (spi_written_grows _ post).subset (spi_newline_written _)
    refine ⟨hno, Nat.le_of_not_lt fun hlong => ?_⟩
    -- the 51st byte is stored behind the array
    have htake : (bs.take 51).length = 51 := by
      rw [List.length_take]
      exact Nat.min_eq_left hlong
    obtain ⟨-, hwritten⟩ := spi_run_chars data (fun hm => hno (List.mem_of_mem_take hm))
      (by rw [htake]; decide)
    have hb := h.bounded 50 ?_
    · exact absurd hb.2 (by decide)
    · rw [← List.take_append_drop 51 bs, run_append]
      refine (spi_written_grows _ _).subset ?_
      rw [hwritten, htake]
      decide
  · rintro ⟨hno, hlen⟩
    obtain ⟨-, hwritten⟩ := spi_run_chars data hno (Nat.lt_of_le_of_lt hlen (by decide))
    constructor
    · intro i hi
      rw [hwritten] at hi
      obtain ⟨k, hk, rfl⟩ := List.mem_map.mp hi
      have := List.mem_range.mp hk
      simp only [Int.ofNat_eq_natCast]
      omega
    · intro pre line hbs _ _ _
      exact absurd (hbs.subset (by simp)) hno

/-- One line feed: the terminator is stored in front of the array. -/
theorem spi_lines_one_newline :
    ¬ LineLaw SpiRx.step SpiRx.buffer [0] (.start fun _ => 0) [65, newline] := by
  intro h
  exact absurd (h.bounded (-1) (by decide)).1 (by decide)

end Stm32F407.Serial
