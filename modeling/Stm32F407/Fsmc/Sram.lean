import Mathlib.Logic.Function.Iterate
import Stm32F407.Lib.Bytes

/-!
# The external SRAM: `fsmc.c`

Model of `FsmcSram_Write` and `FsmcSram_Read`. The address space is bytes, addresses are 32-bit.
`DataIndex` counts bytes of the SRAM and goes up in steps of two, but `Data+DataIndex` counts
halfwords, so the source is read at every second halfword. The halfwords read are recorded.

* `fsmcSramWriteLoop_eq`: how long the loop runs; `Written`: what it has done after `n` rounds.
* `fsmcSram_roundTrip_iff`: what was written is read back, from inside the buffer, iff `Length` is
  at most 2.
* `fsmcSramWrite_ends_iff`: the loop ends, after half of `Length` rounds, iff `Length` is not
  `0xFFFF`. Then the index, which is even, never gets past it.
-/

namespace Stm32F407.Fsmc

open Stm32F407.Lib

/-- `SRAM_START_ADDR`. -/
def sramStartAddr : Nat := 0x68000000

/-- The bytes of the FSMC bank the SRAM is in, `FSMC_Bank1_NORSRAM3`. -/
def sramBankSize : Nat := 0x04000000

/-- The place of a byte offset of the SRAM. -/
def sramAddr (addr : Nat) : Nat := (sramStartAddr + addr) % 2 ^ 32

/-- `FsmcSram_Read`. -/
def fsmcSramRead (mem : Nat → UInt8) (addr : UInt32) : UInt16 :=
  readHalf mem (sramAddr addr.toNat)

/-- The loop of `FsmcSram_Write`: its index, the memory and the halfwords of `Data` read so far. -/
structure SramWrite where
  dataIndex : UInt16
  mem : Nat → UInt8
  reads : List Nat

section

variable (data : Nat → UInt16) (startAddr : UInt32)

/-- One round, with the `DataIndex+=2` at its end. -/
def fsmcSramWriteBody (s : SramWrite) : SramWrite where
  dataIndex := s.dataIndex + 2
  mem := writeHalf s.mem (sramAddr (startAddr.toNat + s.dataIndex.toNat)) (data s.dataIndex.toNat)
  reads := s.reads ++ [s.dataIndex.toNat]

/-- The loop of `FsmcSram_Write`; `none` when it has not ended after `fuel` rounds. -/
def fsmcSramWriteLoop (length : UInt16) : (fuel : Nat) → SramWrite → Option SramWrite
  | 0, s => if s.dataIndex < length then none else some s
  | fuel + 1, s =>
    if s.dataIndex < length then
      fsmcSramWriteLoop length fuel (fsmcSramWriteBody data startAddr s)
    else some s

/-- `FsmcSram_Write`, for `fuel` rounds. -/
def fsmcSramWrite (length : UInt16) (fuel : Nat) (mem : Nat → UInt8) : Option SramWrite :=
  fsmcSramWriteLoop data startAddr length fuel ⟨0, mem, []⟩

end

variable {data : Nat → UInt16} {startAddr : UInt32} {length : UInt16} {mem : Nat → UInt8}

/-! ## The loop -/

/-- What `n` rounds have done to the memory `mem`: halfword `2 * k` of the source is at byte `2 * k`
of the destination. -/
structure Written (data : Nat → UInt16) (startAddr : UInt32) (mem : Nat → UInt8) (n : Nat)
    (s : SramWrite) : Prop where
  index : s.dataIndex.toNat = 2 * n
  reads : s.reads = (List.range n).map (2 * ·)
  stored : ∀ k, k < n → readHalf s.mem (sramStartAddr + startAddr.toNat + 2 * k) = data (2 * k)
  kept : ∀ a, a < sramStartAddr + startAddr.toNat ∨ sramStartAddr + startAddr.toNat + 2 * n ≤ a →
    s.mem a = mem a

theorem written_zero : Written data startAddr mem 0 ⟨0, mem, []⟩ where
  index := rfl
  reads := rfl
  stored k hk := absurd hk (Nat.not_lt_zero k)
  kept _ _ := rfl

theorem body_dataIndex {n : Nat} {s : SramWrite} (h : s.dataIndex.toNat = 2 * n)
    (hwrap : 2 * n + 2 < 2 ^ 16) :
    (fsmcSramWriteBody data startAddr s).dataIndex.toNat = 2 * (n + 1) := by
  have htwo : (2 : UInt16).toNat = 2 := rfl
  rw [fsmcSramWriteBody, UInt16.toNat_add, h, htwo, Nat.mod_eq_of_lt hwrap]
  omega

/-- A round, with the destination inside the address space and the index short of wrapping. -/
theorem Written.body {n : Nat} {s : SramWrite} (h : Written data startAddr mem n s)
    (hfit : sramStartAddr + startAddr.toNat + 2 * n < 2 ^ 32) (hwrap : 2 * n + 2 < 2 ^ 16) :
    Written data startAddr mem (n + 1) (fsmcSramWriteBody data startAddr s) := by
  have haddr : sramAddr (startAddr.toNat + s.dataIndex.toNat) =
      sramStartAddr + startAddr.toNat + 2 * n := by
    rw [sramAddr, h.index, ← Nat.add_assoc, Nat.mod_eq_of_lt hfit]
  constructor
  case index => exact body_dataIndex h.index hwrap
  case reads =>
    rw [fsmcSramWriteBody, h.reads, h.index, List.range_succ, List.map_append]
    rfl
  case stored =>
    intro k hk
    rw [fsmcSramWriteBody]
    dsimp only
    rw [haddr]
    by_cases hlast : k = n
    · rw [hlast, readHalf_writeHalf, h.index]
    · rw [readHalf_writeHalf_of_apart (by omega), h.stored k (by omega)]
  case kept =>
    intro a ha
    rw [fsmcSramWriteBody]
    dsimp only
    rw [haddr, writeHalf_of_out (by omega), h.kept a (by omega)]

/-- The rounds of the loop. -/
def rounds (length : UInt16) : Nat := (length.toNat + 1) / 2

theorem dataIndex_lt_iff {i : Nat} {s : SramWrite} (hi : s.dataIndex.toNat = 2 * i) :
    s.dataIndex < length ↔ i < rounds length := by
  rw [UInt16.lt_iff_toNat_lt, hi, rounds]
  omega

/-- Short of `0xFFFF` the index passes `Length` before it wraps. -/
theorem rounds_wrap (hlen : length ≠ 0xFFFF) {n : Nat} (hn : n < rounds length) :
    2 * n + 2 < 2 ^ 16 := by
  have hmax := length.toNat_lt
  have hne : length.toNat ≠ 0xFFFF := fun h => hlen (UInt16.toNat_inj.mp h)
  rw [rounds] at hn
  omega

/-- **The loop** ends exactly when its rounds are done. -/
theorem fsmcSramWriteLoop_eq (hlen : length ≠ 0xFFFF) (fuel i : Nat) (s : SramWrite)
    (hi : s.dataIndex.toNat = 2 * i) (hle : i ≤ rounds length) :
    fsmcSramWriteLoop data startAddr length fuel s =
      if i + fuel < rounds length then none
      else some ((fsmcSramWriteBody data startAddr)^[rounds length - i] s) := by
  induction fuel generalizing i s with
  | zero =>
    rw [fsmcSramWriteLoop, Nat.add_zero]
    simp only [dataIndex_lt_iff hi]
    by_cases hlt : i < rounds length
    · rw [if_pos hlt, if_pos hlt]
    · rw [if_neg hlt, if_neg hlt, Nat.sub_eq_zero_of_le (by omega)]
      rfl
  | succ fuel ih =>
    rw [fsmcSramWriteLoop]
    simp only [dataIndex_lt_iff hi]
    by_cases hlt : i < rounds length
    · have hnext : rounds length - i = rounds length - (i + 1) + 1 := by omega
      rw [if_pos hlt, ih (i + 1) _ (body_dataIndex hi (rounds_wrap hlen hlt)) hlt, hnext,
        Function.iterate_succ_apply, Nat.add_right_comm, Nat.add_assoc]
    · rw [if_neg hlt, if_neg (by omega), Nat.sub_eq_zero_of_le (by omega)]
      rfl

/-- The whole write. -/
theorem fsmcSramWrite_eq (hlen : length ≠ 0xFFFF) (fuel : Nat) :
    fsmcSramWrite data startAddr length fuel mem =
      if fuel < rounds length then none
      else some ((fsmcSramWriteBody data startAddr)^[rounds length] ⟨0, mem, []⟩) := by
  rw [fsmcSramWrite, fsmcSramWriteLoop_eq hlen fuel 0 _ rfl (Nat.zero_le _), Nat.zero_add]
  rfl

theorem iterate_dataIndex (hlen : length ≠ 0xFFFF) (n : Nat) (hn : n ≤ rounds length) :
    ((fsmcSramWriteBody data startAddr)^[n] ⟨0, mem, []⟩).dataIndex.toNat = 2 * n := by
  induction n with
  | zero => rfl
  | succ n ih =>
    rw [Function.iterate_succ_apply']
    exact body_dataIndex (ih (by omega)) (rounds_wrap hlen hn)

/-! ## The round trip -/

/-- The rounds of a write inside the bank. -/
theorem written_rounds (hfit : startAddr.toNat + length.toNat ≤ sramBankSize)
    (hlen : length ≠ 0xFFFF) (n : Nat) (hn : n ≤ rounds length) :
    Written data startAddr mem n ((fsmcSramWriteBody data startAddr)^[n] ⟨0, mem, []⟩) := by
  rw [sramBankSize] at hfit
  induction n with
  | zero => exact written_zero
  | succ n ih =>
    have hround : 2 * n ≤ length.toNat := by
      rw [rounds] at hn
      omega
    rw [Function.iterate_succ_apply']
    refine (ih (by omega)).body ?_ (rounds_wrap hlen hn)
    rw [sramStartAddr]
    omega

/-- What a write should do: it ends, has read `Length / 2` halfwords of `Data` and no others, and
they are in the SRAM one behind the other, with nothing else changed. -/
def RoundTrip (data : Nat → UInt16) (startAddr : UInt32) (length : UInt16) (mem : Nat → UInt8) :
    Prop :=
  ∃ fuel s, fsmcSramWrite data startAddr length fuel mem = some s ∧
    (∀ j ∈ s.reads, j < length.toNat / 2) ∧
    (∀ k, 2 * k < length.toNat →
      fsmcSramRead s.mem (startAddr + UInt32.ofNat (2 * k)) = data k) ∧
    ∀ a : UInt32, a.toNat % 2 = 0 → a.toNat < sramBankSize →
      a.toNat < startAddr.toNat ∨ startAddr.toNat + length.toNat ≤ a.toNat →
      fsmcSramRead s.mem a = fsmcSramRead mem a

theorem sramAddr_eq {a : Nat} (ha : a < sramBankSize) : sramAddr a = sramStartAddr + a := by
  rw [sramBankSize] at ha
  rw [sramAddr, sramStartAddr, Nat.mod_eq_of_lt (by omega)]

/-- An even halfword beside the write is not changed. -/
theorem Written.read_kept {n : Nat} {s : SramWrite} (h : Written data startAddr mem n s)
    (heven : startAddr.toNat % 2 = 0) {a : UInt32} (heven' : a.toNat % 2 = 0)
    (ha : a.toNat < sramBankSize)
    (hout : a.toNat < startAddr.toNat ∨ startAddr.toNat + 2 * n ≤ a.toNat) :
    fsmcSramRead s.mem a = fsmcSramRead mem a := by
  rw [fsmcSramRead, fsmcSramRead, sramAddr_eq ha]
  exact readHalf_congr (h.kept _ (by omega)) (h.kept _ (by omega))

theorem ne_max_of_even (heven : length.toNat % 2 = 0) : length ≠ 0xFFFF := by
  rintro rfl
  exact absurd heven (by decide)

/-- The last halfword read is at twice the last index of the buffer. -/
theorem RoundTrip.length_le (h : RoundTrip data startAddr length mem)
    (heven : length.toNat % 2 = 0) (hfit : startAddr.toNat + length.toNat ≤ sramBankSize) :
    length.toNat ≤ 2 := by
  obtain ⟨fuel, s, hrun, hreads, -⟩ := h
  have hlen := ne_max_of_even heven
  have hwritten : Written data startAddr mem (rounds length) _ :=
    written_rounds hfit hlen (rounds length) (Nat.le_refl _)
  rw [fsmcSramWrite_eq hlen] at hrun
  split at hrun
  · cases hrun
  · obtain rfl := Option.some.inj hrun
    refine Nat.le_of_not_lt fun hgt => ?_
    have hrounds : rounds length = length.toNat / 2 := by
      rw [rounds]
      omega
    have hlast := hreads (2 * (rounds length - 1)) (by
      rw [hwritten.reads]
      exact List.mem_map.mpr ⟨rounds length - 1, List.mem_range.mpr (by omega), rfl⟩)
    omega

theorem roundTrip_of_length_le (heven : startAddr.toNat % 2 = 0)
    (heven' : length.toNat % 2 = 0) (hfit : startAddr.toNat + length.toNat ≤ sramBankSize)
    (hle : length.toNat ≤ 2) : RoundTrip data startAddr length mem := by
  have hlen := ne_max_of_even heven'
  have hrounds : rounds length = length.toNat / 2 := by
    rw [rounds]
    omega
  have hwritten : Written data startAddr mem (rounds length) _ :=
    written_rounds hfit hlen (rounds length) (Nat.le_refl _)
  refine ⟨rounds length, _, by rw [fsmcSramWrite_eq hlen, if_neg (Nat.lt_irrefl _)], ?_, ?_, ?_⟩
  · intro j hj
    rw [hwritten.reads] at hj
    obtain ⟨k, hk, rfl⟩ := List.mem_map.mp hj
    rw [List.mem_range] at hk
    omega
  · intro k hk
    obtain rfl : k = 0 := by omega
    have hstart : startAddr + UInt32.ofNat (2 * 0) = startAddr := by simp
    rw [hstart, fsmcSramRead, sramAddr_eq (by omega)]
    exact hwritten.stored 0 (by omega)
  · intro a ha hin hout
    exact hwritten.read_kept heven ha hin (by omega)

/-- **When a write does what it should**: at most one halfword. -/
theorem fsmcSram_roundTrip_iff (data : Nat → UInt16) (startAddr : UInt32) (length : UInt16)
    (mem : Nat → UInt8) (heven : startAddr.toNat % 2 = 0) (heven' : length.toNat % 2 = 0)
    (hfit : startAddr.toNat + length.toNat ≤ sramBankSize) :
    RoundTrip data startAddr length mem ↔ length.toNat ≤ 2 :=
  ⟨fun h => h.length_le heven' hfit, roundTrip_of_length_le heven heven' hfit⟩

/-- One halfword. -/
theorem fsmcSram_roundTrip_halfword : RoundTrip (fun _ => 0x1234) 0x100 2 fun _ => 0 :=
  (fsmcSram_roundTrip_iff (fun _ => 0x1234) 0x100 2 _ (by decide) (by decide) (by decide)).mpr
    (by decide)

/-- Two halfwords 1 and 2, with a 3 behind the buffer: the 3 is written in place of the 2. -/
theorem fsmcSram_roundTrip_skips :
    (fsmcSramWrite (fun k => UInt16.ofNat (k + 1)) 0 4 2 fun _ => 0).map
        (fun s => (s.reads, fsmcSramRead s.mem 0, fsmcSramRead s.mem 2)) = some ([0, 2], 1, 3) ∧
      ¬ RoundTrip (fun k => UInt16.ofNat (k + 1)) 0 4 fun _ => 0 := by
  refine ⟨rfl, fun h => ?_⟩
  exact absurd (h.length_le (by decide) (by decide)) (by decide)

/-! ## The end of the loop -/

/-- The loop ends after exactly `n` rounds, with an index that has not wrapped. -/
def EndsAfter (data : Nat → UInt16) (startAddr : UInt32) (length : UInt16) (mem : Nat → UInt8)
    (n : Nat) : Prop :=
  (∀ fuel, fuel < n → fsmcSramWrite data startAddr length fuel mem = none) ∧
    ∃ s, fsmcSramWrite data startAddr length n mem = some s ∧ s.dataIndex.toNat = 2 * n

/-- An even index is below `0xFFFF`, and stays even when it wraps. -/
theorem fsmcSramWriteLoop_endless (fuel : Nat) {s : SramWrite} (h : s.dataIndex.toNat % 2 = 0) :
    fsmcSramWriteLoop data startAddr 0xFFFF fuel s = none := by
  have hlt : ∀ {s : SramWrite}, s.dataIndex.toNat % 2 = 0 → s.dataIndex < 0xFFFF := by
    intro s h
    have hmax := s.dataIndex.toNat_lt
    have hodd : (0xFFFF : UInt16).toNat = 0xFFFF := rfl
    rw [UInt16.lt_iff_toNat_lt, hodd]
    omega
  induction fuel generalizing s with
  | zero => exact if_pos (hlt h)
  | succ fuel ih =>
    rw [fsmcSramWriteLoop, if_pos (hlt h)]
    apply ih
    have htwo : (2 : UInt16).toNat = 2 := rfl
    rw [fsmcSramWriteBody, UInt16.toNat_add, htwo]
    omega

/-- **When the loop ends.** -/
theorem fsmcSramWrite_ends_iff (data : Nat → UInt16) (startAddr : UInt32) (length : UInt16)
    (mem : Nat → UInt8) :
    EndsAfter data startAddr length mem ((length.toNat + 1) / 2) ↔ length ≠ 0xFFFF := by
  constructor
  · rintro ⟨-, s, hrun, -⟩ rfl
    have hnone : fsmcSramWrite data startAddr 0xFFFF _ mem = none :=
      fsmcSramWriteLoop_endless ((UInt16.toNat 0xFFFF + 1) / 2) rfl
    rw [hnone] at hrun
    cases hrun
  · intro hlen
    constructor
    · intro fuel hfuel
      exact (fsmcSramWrite_eq hlen fuel).trans (if_pos hfuel)
    · exact ⟨_, (fsmcSramWrite_eq hlen _).trans (if_neg (Nat.lt_irrefl _)),
        iterate_dataIndex hlen (rounds length) (Nat.le_refl _)⟩

/-- No number of rounds is enough for `0xFFFF`. -/
theorem fsmcSramWrite_endless : ¬ EndsAfter (fun _ => 0) 0 0xFFFF (fun _ => 0) 0x8000 := by
  rintro ⟨-, s, hrun, -⟩
  have hnone : fsmcSramWrite (fun _ => 0) 0 0xFFFF 0x8000 (fun _ => 0) = none :=
    fsmcSramWriteLoop_endless 0x8000 rfl
  rw [hnone] at hrun
  cases hrun

end Stm32F407.Fsmc
