import Stm32F407.Lib.Bytes
import Stm32F407.Malloc.Model

/-!
# The replacement allocator of `malloc.c` (`USE_NEW_MALLOC_MOD = 1`)

Model of `Malloc_Init`, `Malloc_Copy`, `Malloc_Set`, `_Malloc_Free`, `Malloc_Free`, `_Malloc_Apply`,
`Malloc_Apply` and `Malloc_Reset`. Pools and tables are ranges of one byte memory, a table entry is a
halfword of it, so that a byte count and an entry count can be told apart. The sizes and the places
are parameters (`Sizes`, `Areas`); `headerSizes` and `headerAreas` are those of `malloc.h`.

* `mallocApply_null`: the loop `Offset<=0` of `_Malloc_Apply` is never entered, and every request
  fails.
* `mallocInit_mem`, `mallocFree_eq`: the bytes that the other two functions write.
* `mallocInit_clears_iff`: `Malloc_Init` clears a bank iff the rest was clear already, since
  `Malloc_Set` gets the size of the pool in an `uint16_t` and the entries of the table as bytes.
* `mallocFree_frees_iff`: `Malloc_Free` takes its count from the pool and not from the table, and
  clears from that count on. It gives back its block iff those entries are the block and free ones.
-/

namespace Stm32F407.Malloc

open Stm32F407.Lib

/-! ## Sizes and places -/

/-- `MallocPondSizeArr`, `MallocBankSizeArr` and `MallocTableSizeArr`. -/
structure Sizes where
  pondSize : Bank → Nat
  bankSize : Bank → Nat
  tableSize : Bank → Nat
  bankSize_pos : ∀ b, 0 < bankSize b
  tableSize_pos : ∀ b, 0 < tableSize b
  blocks_le : ∀ b, bankSize b * tableSize b ≤ pondSize b

/-- A block of the table starts inside the pool. -/
theorem Sizes.offset_lt (S : Sizes) {b : Bank} {i : Nat} (hi : i < S.tableSize b) :
    i * S.bankSize b < S.pondSize b := by
  calc i * S.bankSize b
      < S.tableSize b * S.bankSize b := Nat.mul_lt_mul_of_pos_right hi (S.bankSize_pos b)
    _ = S.bankSize b * S.tableSize b := Nat.mul_comm _ _
    _ ≤ S.pondSize b := S.blocks_le b

/-- Where pools of these sizes lie. -/
structure Ponds (S : Sizes) where
  pond : Bank → Nat
  pond_pos : ∀ b, 0 < pond b
  pond_le : ∀ b, pond b + S.pondSize b ≤ 2 ^ 32

/-- `MallocPondArr` and `MallocTableArr`. -/
structure Areas (S : Sizes) extends Ponds S where
  table : Bank → Nat
  table_le : ∀ b, table b + 2 * S.tableSize b ≤ 2 ^ 32
  apart : ∀ b, pond b + S.pondSize b ≤ table b ∨ table b + 2 * S.tableSize b ≤ pond b

/-- The sizes of `malloc.h`. -/
def headerSizes : Sizes where
  pondSize
    | .sramin => 100 * 1024
    | .sramex => 960 * 1024
    | .sramccm => 64 * 1024
  bankSize
    | .sramin => 32
    | .sramex => 32
    | .sramccm => 32
  tableSize
    | .sramin => 100 * 1024 / 32
    | .sramex => 960 * 1024 / 32
    | .sramccm => 64 * 1024 / 32
  bankSize_pos b := by cases b <;> decide
  tableSize_pos b := by cases b <;> decide
  blocks_le b := by cases b <;> decide

/-- `Memory_Pond_Int` and `Memory_Table_Int`, which the linker places in the internal RAM. -/
structure IntLayout where
  pondInt : Nat
  tableInt : Nat
  pond_ge : 0x20000000 ≤ pondInt
  pond_le : pondInt + 100 * 1024 ≤ 0x20000000 + 0x20000
  table_ge : 0x20000000 ≤ tableInt
  table_le : tableInt + 2 * (100 * 1024 / 32) ≤ 0x20000000 + 0x20000
  apart : pondInt + 100 * 1024 ≤ tableInt ∨ tableInt + 2 * (100 * 1024 / 32) ≤ pondInt

/-- `MALLOC_MANAGE_DEFAULT`. -/
def headerAreas (L : IntLayout) : Areas headerSizes where
  pond
    | .sramin => L.pondInt
    | .sramex => 0x68000000
    | .sramccm => 0x10000000
  table
    | .sramin => L.tableInt
    | .sramex => 0x68000000 + 960 * 1024
    | .sramccm => 0x10000000 + 64 * 1024
  pond_pos b := by
    have := L.pond_ge
    cases b <;> dsimp only <;> omega
  pond_le b := by
    have := L.pond_le
    cases b <;> dsimp only [headerSizes] <;> omega
  table_le b := by
    have := L.table_le
    cases b <;> dsimp only [headerSizes] <;> omega
  apart b := by
    have := L.apart
    cases b <;> dsimp only [headerSizes] <;> omega

/-! ## The functions -/

/-- `Malloc_Manage`, with the memory its pointers lead to. -/
structure MallocManage where
  mallocReadyArr : Bank → Bool
  mem : Nat → UInt8

/-- `Malloc_Set(DesAddr, Value, Len)`: `Len` is an `uint16_t`, and a byte of `Value` is stored. -/
def mallocSet (mem : Nat → UInt8) (desAddr : Nat) (value len : UInt16) : Nat → UInt8 :=
  fill mem desAddr value.toUInt8 len.toNat

/-- `Malloc_Copy(SrcAddr, DesAddr, Len)`: the loop of `mymemcpy`. -/
def mallocCopy (mem : Nat → UInt8) (srcAddr desAddr : Nat) (len : UInt16) : Nat → UInt8 :=
  mymemcpy mem desAddr srcAddr len.toNat

section

variable {S : Sizes} (A : Areas S) (memType : Bank)

/-- `Malloc_Init(MemType)`. -/
def mallocInit (s : MallocManage) : MallocManage :=
  let mem := mallocSet s.mem (A.pond memType) 0 (UInt16.ofNat (S.pondSize memType))
  let mem := mallocSet mem (A.table memType) 0 (UInt16.ofNat (S.tableSize memType))
  { mallocReadyArr := Function.update s.mallocReadyArr memType true, mem }

/-- `MallocTableArr[MemType][i]`. -/
def tableEntry (mem : Nat → UInt8) (i : Nat) : UInt16 := readHalf mem (A.table memType + 2 * i)

/-- `_Malloc_Free(MemType, Offset)`: `1` on success, `2` when the bank was not ready and `0` when
the offset lies outside the pool. -/
def innerMallocFree (offset : Nat) (s : MallocManage) : Nat × MallocManage :=
  if s.mallocReadyArr memType = false then (2, mallocInit A memType s)
  else if offset < S.pondSize memType then
    let bankOffset := offset / S.bankSize memType
    let freeBankNum := (s.mem (A.pond memType + bankOffset)).toNat
    (1, { s with
      mem := fillHalves s.mem (A.table memType + 2 * freeBankNum) 0 freeBankNum })
  else (0, s)

/-- `Malloc_Free(MemType, Ptr)`. -/
def mallocFree (ptr : Nat) (s : MallocManage) : MallocManage :=
  if ptr = NULL then s
  else (innerMallocFree A memType ((ptr + 2 ^ 32 - A.pond memType) % 2 ^ 32) s).2

/-- The search of `_Malloc_Apply`, for at most `fuel` rounds: `Offset` and `CurrBankNum` when it is
left. `Offset` is an `unsigned long`. -/
def applyLoop (entry : Nat → UInt16) (bankNum : Nat) : (fuel : Nat) → UInt32 → Nat → UInt32 × Nat
  | 0, offset, currBankNum => (offset, currBankNum)
  | fuel + 1, offset, currBankNum =>
    if offset ≤ 0 then
      let currBankNum := if entry offset.toNat ≠ 0 then 0 else currBankNum + 1
      if currBankNum = bankNum then (offset, currBankNum)
      else applyLoop entry bankNum fuel (offset - 1) currBankNum
    else (offset, currBankNum)

/-- `BankNum`. -/
def bankNumOf (S : Sizes) (memType : Bank) (size : UInt16) : Nat :=
  if size.toNat % S.bankSize memType ≠ 0 then size.toNat / S.bankSize memType + 1
  else size.toNat / S.bankSize memType

/-- `_Malloc_Apply(MemType, Size)`: the offset found, or `0xFFFFFFFF`. Below `0` the search does not
go on, so two rounds are enough for it (`applyLoop_done`). -/
def innerMallocApply (size : UInt16) (s : MallocManage) : Nat × MallocManage :=
  if size = 0 then (0xFFFFFFFF, s)
  else
    let s := if s.mallocReadyArr memType then s else mallocInit A memType s
    let bankNum := bankNumOf S memType size
    let r := applyLoop (tableEntry A memType s.mem) bankNum 2
      (UInt32.ofNat (S.tableSize memType)) 0
    if r.2 ≠ bankNum then (0xFFFFFFFF, s)
    else
      (r.1.toNat * S.bankSize memType % 2 ^ 32, { s with
        mem := fillHalves s.mem (A.table memType + 2 * r.1.toNat) (UInt16.ofNat bankNum) bankNum })

/-- `Malloc_Apply(MemType, Size)`. -/
def mallocApply (size : UInt16) (s : MallocManage) : Nat × MallocManage :=
  let r := innerMallocApply A memType size s
  if r.1 = 0xFFFFFFFF then (NULL, r.2) else ((r.1 + A.pond memType) % 2 ^ 32, r.2)

/-- `Malloc_Reset(MemType, Ptr, Size)`. -/
def mallocReset (ptr : Nat) (size : UInt16) (s : MallocManage) : Nat × MallocManage :=
  let r := mallocApply A memType size s
  if r.1 ≠ NULL then
    let s := { r.2 with mem := mallocCopy r.2.mem ptr r.1 size }
    (r.1, mallocFree A memType ptr s)
  else (NULL, r.2)

end

variable {S : Sizes} {A : Areas S} {memType : Bank} {s : MallocManage}

/-! ## Requests -/

/-- The search is over after two rounds. -/
theorem applyLoop_done (entry : Nat → UInt16) (bankNum fuel : Nat) (offset : UInt32)
    (currBankNum : Nat) :
    applyLoop entry bankNum (fuel + 2) offset currBankNum =
      applyLoop entry bankNum 2 offset currBankNum := by
  have hleft : ∀ n curr, applyLoop entry bankNum n (0 - 1) curr = (0 - 1, curr) := by
    intro n curr
    cases n with
    | zero => rfl
    | succ n => exact if_neg (by decide)
  rw [applyLoop, applyLoop]
  by_cases hzero : offset ≤ 0
  · obtain rfl : offset = 0 := UInt32.le_zero_iff.mp hzero
    simp only [hleft]
  · rw [if_neg hzero, if_neg hzero]

theorem tableSize_toNat (A : Areas S) (memType : Bank) :
    (UInt32.ofNat (S.tableSize memType)).toNat = S.tableSize memType := by
  have hle := A.table_le memType
  rw [UInt32.toNat_ofNat', Nat.mod_eq_of_lt (by omega)]

theorem bankNumOf_pos (S : Sizes) (memType : Bank) {size : UInt16} (h : size ≠ 0) :
    0 < bankNumOf S memType size := by
  have hsize : size.toNat ≠ 0 := fun h0 => h (UInt16.toNat_inj.mp h0)
  have hdiv := Nat.div_add_mod size.toNat (S.bankSize memType)
  unfold bankNumOf
  split
  · exact Nat.succ_pos _
  · rename_i hmod
    rw [not_not.mp hmod, Nat.add_zero] at hdiv
    exact Nat.pos_of_ne_zero fun h0 => hsize (by rw [← hdiv, h0, Nat.mul_zero])

/-- **Every request fails**: `Offset` starts at the size of the table, and that is not `<=0`. -/
theorem mallocApply_null (A : Areas S) (memType : Bank) (size : UInt16) (s : MallocManage) :
    mallocApply A memType size s =
      (NULL, if size = 0 ∨ s.mallocReadyArr memType then s else mallocInit A memType s) := by
  have hguard : ¬ UInt32.ofNat (S.tableSize memType) ≤ 0 := by
    rw [UInt32.le_iff_toNat_le, tableSize_toNat A]
    exact Nat.not_le_of_gt (S.tableSize_pos memType)
  have hinner : innerMallocApply A memType size s =
      (0xFFFFFFFF, if size = 0 ∨ s.mallocReadyArr memType then s else mallocInit A memType s) := by
    unfold innerMallocApply
    by_cases h0 : size = 0
    · rw [if_pos h0, if_pos (.inl h0)]
    · have hpos := bankNumOf_pos S memType h0
      rw [if_neg h0]
      simp only [applyLoop, if_neg hguard, or_iff_right h0]
      rw [if_pos (Nat.ne_of_lt hpos)]
  unfold mallocApply
  rw [hinner]
  rfl

/-- `Malloc_Reset` never gets to its copy. -/
theorem mallocReset_null (A : Areas S) (memType : Bank) (ptr : Nat) (size : UInt16)
    (s : MallocManage) :
    mallocReset A memType ptr size s =
      (NULL, if size = 0 ∨ s.mallocReadyArr memType then s else mallocInit A memType s) := by
  unfold mallocReset
  rw [mallocApply_null]
  exact if_neg (not_not_intro rfl)

/-! ## The empty bank -/

/-- A ready bank whose table records the blocks `live`. -/
structure MallocInv (A : Areas S) (memType : Bank) (live : List Block) (s : MallocManage) :
    Prop where
  ready : s.mallocReadyArr memType = true
  records : Records (S.tableSize memType) (fun i => (tableEntry A memType s.mem i).toNat) live

/-- What `Malloc_Init` should do. -/
structure InitLaw (A : Areas S) (memType : Bank) (s : MallocManage) : Prop where
  pond : ∀ i, i < S.pondSize memType → (mallocInit A memType s).mem (A.pond memType + i) = 0
  table : ∀ i, i < S.tableSize memType → tableEntry A memType (mallocInit A memType s).mem i = 0
  kept : ∀ a, ¬ (⟨A.pond memType, S.pondSize memType⟩ : Block).Has a →
    ¬ (⟨A.table memType, 2 * S.tableSize memType⟩ : Block).Has a →
    (mallocInit A memType s).mem a = s.mem a
  empty : MallocInv A memType [] (mallocInit A memType s)

/-- The bytes that `Malloc_Init` clears. -/
theorem mallocInit_mem (A : Areas S) (memType : Bank) (s : MallocManage) :
    (mallocInit A memType s).mem =
      paint (paint s.mem ⟨A.pond memType, S.pondSize memType % 2 ^ 16⟩ 0)
        ⟨A.table memType, S.tableSize memType % 2 ^ 16⟩ 0 := by
  rw [mallocInit]
  dsimp only
  rw [mallocSet, mallocSet, fill_eq_paint, fill_eq_paint, UInt16.toNat_ofNat', UInt16.toNat_ofNat']
  rfl

/-- Of the pool, the first bytes up to the size modulo `2^16`. -/
theorem mallocInit_pond (A : Areas S) (s : MallocManage) {i : Nat} (hi : i < S.pondSize memType) :
    (mallocInit A memType s).mem (A.pond memType + i) =
      if i < S.pondSize memType % 2 ^ 16 then 0 else s.mem (A.pond memType + i) := by
  have hapart := A.apart memType
  have hmod := Nat.mod_le (S.tableSize memType) (2 ^ 16)
  rw [mallocInit_mem, paint_of_not_has (by rw [Block.has_mk]; omega), paint]
  exact if_congr (by rw [Block.has_mk]; omega) rfl rfl

/-- Of the table, as many bytes as it has entries. -/
theorem mallocInit_table (A : Areas S) (s : MallocManage) {i : Nat}
    (hi : i < 2 * S.tableSize memType) :
    (mallocInit A memType s).mem (A.table memType + i) =
      if i < S.tableSize memType % 2 ^ 16 then 0 else s.mem (A.table memType + i) := by
  have hapart := A.apart memType
  have hmod := Nat.mod_le (S.pondSize memType) (2 ^ 16)
  rw [mallocInit_mem, paint, paint_of_not_has (by rw [Block.has_mk]; omega)]
  exact if_congr (by rw [Block.has_mk]; omega) rfl rfl

theorem mallocInit_kept (A : Areas S) (s : MallocManage) {a : Nat}
    (hpond : ¬ (⟨A.pond memType, S.pondSize memType⟩ : Block).Has a)
    (htable : ¬ (⟨A.table memType, 2 * S.tableSize memType⟩ : Block).Has a) :
    (mallocInit A memType s).mem a = s.mem a := by
  have hmod := Nat.mod_le (S.pondSize memType) (2 ^ 16)
  have hmod' := Nat.mod_le (S.tableSize memType) (2 ^ 16)
  rw [Block.has_mk] at hpond htable
  rw [mallocInit_mem, paint_of_not_has (by rw [Block.has_mk]; omega),
    paint_of_not_has (by rw [Block.has_mk]; omega)]

theorem headerSizes_table (b : Bank) :
    headerSizes.tableSize b % 2 = 0 ∧ 512 ≤ headerSizes.tableSize b ∧
      headerSizes.tableSize b < 2 ^ 16 := by
  cases b <;> decide

/-- Half of the entries. -/
theorem mallocInit_entry (A : Areas headerSizes) (s : MallocManage) {i : Nat}
    (hi : i < headerSizes.tableSize memType) :
    tableEntry A memType (mallocInit A memType s).mem i =
      if i < headerSizes.tableSize memType / 2 then 0 else tableEntry A memType s.mem i := by
  obtain ⟨heven, -, hsmall⟩ := headerSizes_table memType
  have hlo := @mallocInit_table _ memType A s (2 * i) (by omega)
  have hhi := @mallocInit_table _ memType A s (2 * i + 1) (by omega)
  rw [Nat.mod_eq_of_lt hsmall] at hlo hhi
  unfold tableEntry
  by_cases hhalf : i < headerSizes.tableSize memType / 2
  · rw [if_pos (by omega)] at hlo hhi
    rw [if_pos hhalf, readHalf_eq_zero_iff]
    exact ⟨hlo, hhi⟩
  · rw [if_neg (by omega)] at hlo hhi
    rw [if_neg hhalf]
    exact readHalf_congr hlo hhi

/-- **When `Malloc_Init` clears a bank**: the pool behind its size modulo `2^16` and the second half
of the table were clear before. -/
theorem mallocInit_clears_iff (L : IntLayout) (memType : Bank) (s : MallocManage) :
    InitLaw (headerAreas L) memType s ↔
      (∀ i, headerSizes.pondSize memType % 2 ^ 16 ≤ i → i < headerSizes.pondSize memType →
        s.mem ((headerAreas L).pond memType + i) = 0) ∧
      ∀ i, headerSizes.tableSize memType / 2 ≤ i → i < headerSizes.tableSize memType →
        tableEntry (headerAreas L) memType s.mem i = 0 := by
  constructor
  · intro h
    constructor
    · intro i hlo hi
      have hbyte := h.pond i hi
      rwa [mallocInit_pond _ s hi, if_neg (Nat.not_lt_of_le hlo)] at hbyte
    · intro i hlo hi
      have hentry := h.table i hi
      rwa [mallocInit_entry _ s hi, if_neg (Nat.not_lt_of_le hlo)] at hentry
  · rintro ⟨hpond, htable⟩
    have hentry : ∀ i, i < headerSizes.tableSize memType →
        tableEntry (headerAreas L) memType (mallocInit (headerAreas L) memType s).mem i = 0 := by
      intro i hi
      rw [mallocInit_entry _ s hi]
      split
      · rfl
      · exact htable i (by omega) hi
    constructor
    case pond =>
      intro i hi
      rw [mallocInit_pond _ s hi]
      split
      · rfl
      · exact hpond i (by omega) hi
    case table => exact hentry
    case kept =>
      intro a hout hout'
      exact mallocInit_kept _ s hout hout'
    case empty =>
      refine ⟨Function.update_self .., records_nil fun i hi => ?_⟩
      rw [hentry i hi]
      rfl

/-- Pool and table at the ends of the internal RAM. -/
def iramAreas : Areas headerSizes :=
  headerAreas
    ⟨0x20000000, 0x2001E700, by decide, by decide, by decide, by decide, by decide⟩

/-- 960K and 64K are `0` in an `uint16_t`: nothing of the external pool is cleared. -/
theorem mallocInit_fails_sramex :
    (mallocInit iramAreas .sramex ⟨fun _ => false, fun _ => 0xFF⟩).mem 0x68000000 = 0xFF ∧
      ¬ InitLaw iramAreas .sramex ⟨fun _ => false, fun _ => 0xFF⟩ := by
  have hbase : iramAreas.pond .sramex + 0 = 0x68000000 := rfl
  have hbyte := mallocInit_pond iramAreas ⟨fun _ => false, fun _ => 0xFF⟩
    (show 0 < headerSizes.pondSize .sramex by decide)
  rw [hbase, if_neg (by decide)] at hbyte
  refine ⟨hbyte, fun h => ?_⟩
  have hzero := h.pond 0 (by decide)
  rw [hbase, hbyte] at hzero
  exact absurd hzero (by decide)

/-! ## Giving back -/

/-- What `Malloc_Free` should do with the address of the block `b`. -/
structure FreesBlock (A : Areas S) (memType : Bank) (b : Block) (s : MallocManage) : Prop where
  cleared : ∀ i, b.Has i → tableEntry A memType
    (mallocFree A memType (A.pond memType + b.start * S.bankSize memType) s).mem i = 0
  kept : ∀ a, ¬ (⟨A.table memType + 2 * b.start, 2 * b.count⟩ : Block).Has a →
    (mallocFree A memType (A.pond memType + b.start * S.bankSize memType) s).mem a = s.mem a
  ready : (mallocFree A memType (A.pond memType + b.start * S.bankSize memType) s).mallocReadyArr =
    s.mallocReadyArr

/-- The byte of the pool at index `start`, which `Malloc_Free` takes for the count of the block there.
-/
def pondByte (A : Areas S) (memType : Bank) (s : MallocManage) (start : Nat) : Nat :=
  (s.mem (A.pond memType + start)).toNat

/-- What `Malloc_Free` does on a ready bank. -/
theorem mallocFree_eq (hready : s.mallocReadyArr memType = true) {start : Nat}
    (hstart : start < S.tableSize memType) :
    mallocFree A memType (A.pond memType + start * S.bankSize memType) s = { s with
      mem := fillHalves s.mem (A.table memType + 2 * pondByte A memType s start) 0
        (pondByte A memType s start) } := by
  have hpos := A.pond_pos memType
  have hle := A.pond_le memType
  have hin := S.offset_lt hstart
  have hoffset : (A.pond memType + start * S.bankSize memType + 2 ^ 32 - A.pond memType) % 2 ^ 32 =
      start * S.bankSize memType := by omega
  unfold mallocFree
  rw [if_neg (by unfold NULL; omega), hoffset]
  unfold innerMallocFree
  rw [if_neg (by simp [hready]), if_pos hin]
  dsimp only
  rw [Nat.mul_div_cancel _ (S.bankSize_pos memType)]
  rfl

/-- The entries that are cleared: as many as the count says, and from the count on. -/
theorem tableEntry_clear (A : Areas S) (memType : Bank) (mem : Nat → UInt8) (n i : Nat) :
    tableEntry A memType (fillHalves mem (A.table memType + 2 * n) 0 n) i =
      if n ≤ i ∧ i < 2 * n then 0 else tableEntry A memType mem i := by
  unfold tableEntry
  split
  · rw [readHalf_eq_zero_iff, fillHalves_zero, fillHalves_zero, if_pos (by omega),
      if_pos (by omega)]
    exact ⟨rfl, rfl⟩
  · apply readHalf_congr
    · rw [fillHalves_zero, if_neg (by omega)]
    · rw [fillHalves_zero, if_neg (by omega)]

section

variable {live : List Block} {b : Block}

theorem MallocInv.entry (h : MallocInv A memType live s) (hb : b ∈ live) {i : Nat} (hi : b.Has i) :
    (tableEntry A memType s.mem i).toNat = b.count := h.records.owned b hb i hi

/-- A live block does not look free. -/
theorem MallocInv.entry_ne (h : MallocInv A memType live s) (hb : b ∈ live) {i : Nat}
    (hi : b.Has i) : tableEntry A memType s.mem i ≠ 0 := by
  intro hzero
  have hentry := h.entry hb hi
  have hpos := h.records.pos b hb
  rw [hzero, UInt16.toNat_zero] at hentry
  omega

theorem MallocInv.apart (h : MallocInv A memType live s) (hb : b ∈ live) {c : Block} (hc : c ∈ live)
    (hne : c ≠ b) : c.Apart b :=
  have : Std.Symm Block.Apart := ⟨fun _ _ hab => hab.symm⟩
  h.records.apart.forall hc hb hne

/-- The run of entries that `Malloc_Free` clears for the block `b`. -/
def freedRun (A : Areas S) (memType : Bank) (s : MallocManage) (b : Block) : Block :=
  ⟨pondByte A memType s b.start, pondByte A memType s b.start⟩

theorem freedRun_has {i : Nat} : (freedRun A memType s b).Has i ↔
    pondByte A memType s b.start ≤ i ∧ i < 2 * pondByte A memType s b.start := by
  unfold freedRun
  rw [Block.has_mk]
  omega

/-- A count read from the pool is a byte, so the run ends inside the table. -/
theorem freedRun_lt (A : Areas headerSizes) {i : Nat} (hi : (freedRun A memType s b).Has i) :
    i < headerSizes.tableSize memType := by
  have hbyte := (s.mem (A.pond memType + b.start)).toNat_lt
  have htable := (headerSizes_table memType).2.1
  rw [freedRun_has, pondByte] at hi
  omega

theorem MallocInv.mallocFree_eq (h : MallocInv A memType live s) (hb : b ∈ live) :
    mallocFree A memType (A.pond memType + b.start * S.bankSize memType) s = { s with
      mem := fillHalves s.mem (A.table memType + 2 * pondByte A memType s b.start) 0
        (pondByte A memType s b.start) } := by
  have hpos := h.records.pos b hb
  have hin := h.records.inside b hb
  exact Malloc.mallocFree_eq h.ready (by omega)

/-- If the law holds, the run covers the block. -/
theorem FreesBlock.covers (hlaw : FreesBlock A memType b s) (h : MallocInv A memType live s)
    (hb : b ∈ live) {i : Nat} (hi : b.Has i) : (freedRun A memType s b).Has i := by
  have hzero := hlaw.cleared i hi
  rw [h.mallocFree_eq hb, tableEntry_clear] at hzero
  split at hzero
  · rename_i hrun
    exact freedRun_has.mpr hrun
  · exact absurd hzero (h.entry_ne hb hi)

/-- If the law holds, the run has no entry of another block. -/
theorem FreesBlock.spares (hlaw : FreesBlock A memType b s) (h : MallocInv A memType live s)
    (hb : b ∈ live) {c : Block} (hc : c ∈ live) (hne : c ≠ b) {i : Nat} (hi : c.Has i) :
    ¬ (freedRun A memType s b).Has i := by
  intro hrun
  have hout := (h.apart hb hc hne).not_has hi
  have hlo := hlaw.kept (A.table memType + 2 * i) (by
    unfold Block.Has at hout
    rw [Block.has_mk]
    omega)
  have hhi := hlaw.kept (A.table memType + 2 * i + 1) (by
    unfold Block.Has at hout
    rw [Block.has_mk]
    omega)
  have hsame : tableEntry A memType _ i = tableEntry A memType s.mem i := readHalf_congr hlo hhi
  rw [h.mallocFree_eq hb, tableEntry_clear, if_pos (freedRun_has.mp hrun)] at hsame
  exact h.entry_ne hc hi hsame.symm

/-- A run that covers the block and no entry of another one: then nothing else was there to clear.
-/
theorem freesBlock_of_run {A : Areas headerSizes} (h : MallocInv A memType live s) (hb : b ∈ live)
    (hcovers : ∀ i, b.Has i → (freedRun A memType s b).Has i)
    (hspares : ∀ c ∈ live, c ≠ b → ∀ i, c.Has i → ¬ (freedRun A memType s b).Has i) :
    FreesBlock A memType b s := by
  constructor
  case cleared =>
    intro i hi
    rw [h.mallocFree_eq hb, tableEntry_clear, if_pos (freedRun_has.mp (hcovers i hi))]
  case kept =>
    intro a hout
    rw [h.mallocFree_eq hb]
    dsimp only
    rw [fillHalves_zero]
    split
    · -- a byte of the run that is not the block's belongs to an entry that was free
      rename_i hin
      have hrun : (freedRun A memType s b).Has ((a - A.table memType) / 2) :=
        freedRun_has.mpr (by omega)
      have hfree := h.records.free _ (freedRun_lt A hrun) (by
        intro c hc hi
        by_cases hcb : c = b
        · subst hcb
          unfold Block.Has at hi
          rw [Block.has_mk] at hout
          omega
        · exact hspares c hc hcb _ hi hrun)
      have hzero : tableEntry A memType s.mem ((a - A.table memType) / 2) = 0 :=
        UInt16.toNat_inj.mp hfree
      rw [tableEntry, readHalf_eq_zero_iff] at hzero
      rcases show a = A.table memType + 2 * ((a - A.table memType) / 2) ∨
        a = A.table memType + 2 * ((a - A.table memType) / 2) + 1 by omega with ha | ha
      · rw [ha, hzero.1]
      · rw [ha, hzero.2]
    · rfl
  case ready => rw [h.mallocFree_eq hb]

end

/-- **When `Malloc_Free` gives back its block**: with `m` the byte of the pool at the index of the
block, the entries from `m` to `2 * m` hold the block and no other one. -/
theorem mallocFree_frees_iff (L : IntLayout) (memType : Bank) (s : MallocManage) (live : List Block)
    (h : MallocInv (headerAreas L) memType live s) (b : Block) (hb : b ∈ live) :
    FreesBlock (headerAreas L) memType b s ↔
      (pondByte (headerAreas L) memType s b.start ≤ b.start ∧
        b.start + b.count ≤ 2 * pondByte (headerAreas L) memType s b.start) ∧
      ∀ c ∈ live, c ≠ b → c.start + c.count ≤ pondByte (headerAreas L) memType s b.start ∨
        2 * pondByte (headerAreas L) memType s b.start ≤ c.start := by
  have hpos := h.records.pos
  constructor
  · intro hlaw
    have hfirst := hlaw.covers h hb (i := b.start) ⟨Nat.le_refl _, by have := hpos b hb; omega⟩
    have hlast := hlaw.covers h hb (i := b.start + b.count - 1) (by
      have := hpos b hb
      unfold Block.Has
      omega)
    rw [freedRun_has] at hfirst hlast
    refine ⟨by have := hpos b hb; omega, fun c hc hne => ?_⟩
    have hrun : 0 < (freedRun (headerAreas L) memType s b).count := by
      unfold freedRun
      dsimp only
      omega
    have hapart := Block.apart_of_not_has (hpos c hc) hrun fun i hi => hlaw.spares h hb hc hne hi
    unfold freedRun Block.Apart at hapart
    dsimp only at hapart
    omega
  · rintro ⟨hcovers, hspares⟩
    refine freesBlock_of_run h hb ?_ ?_
    · intro i hi
      unfold Block.Has at hi
      exact freedRun_has.mpr (by omega)
    · intro c hc hne i hi hrun
      have := hspares c hc hne
      unfold Block.Has at hi
      rw [freedRun_has] at hrun
      omega

/-- The internal bank with one block, entry 1, and the byte `v` at index 1 of the pool. -/
def oneBlock (v : UInt8) : MallocManage where
  mallocReadyArr _ := true
  mem a := if a = 0x20000001 then v else if a = 0x2001E702 then 1 else 0

theorem mallocInv_oneBlock (v : UInt8) : MallocInv iramAreas .sramin [⟨1, 1⟩] (oneBlock v) := by
  have hentry : ∀ i, (tableEntry iramAreas .sramin (oneBlock v).mem i).toNat =
      if i = 1 then 1 else 0 := by
    intro i
    have hlo : (oneBlock v).mem (0x2001E700 + 2 * i) = if i = 1 then 1 else 0 := by
      dsimp only [oneBlock]
      rw [if_neg (by omega)]
      exact if_congr (by omega) rfl rfl
    have hhi : (oneBlock v).mem (0x2001E700 + 2 * i + 1) = 0 := by
      dsimp only [oneBlock]
      rw [if_neg (by omega), if_neg (by omega)]
    have htable : iramAreas.table .sramin = 0x2001E700 := rfl
    rw [tableEntry, htable, readHalf_toNat, hlo, hhi]
    split <;> rfl
  refine ⟨rfl, ?_, ?_, List.pairwise_singleton _ _, ?_, ?_⟩
  · simp
  · simp [headerSizes]
  · intro b hb i hi
    obtain rfl := List.mem_singleton.mp hb
    rw [Block.has_mk] at hi
    rw [hentry, if_pos (by omega)]
  · intro i _ hno
    rw [hentry, if_neg fun h1 => hno _ List.mem_cons_self (by rw [Block.has_mk]; omega)]

/-- With a 1 in the pool it happens to work. -/
theorem mallocFree_frees_oneBlock : FreesBlock iramAreas .sramin ⟨1, 1⟩ (oneBlock 1) :=
  (mallocFree_frees_iff _ .sramin (oneBlock 1) [⟨1, 1⟩] (mallocInv_oneBlock 1) ⟨1, 1⟩
    List.mem_cons_self).mpr ⟨by decide, by decide⟩

/-- With a 0 in the pool the block stays in use. -/
theorem mallocFree_fails_zero :
    tableEntry iramAreas .sramin (mallocFree iramAreas .sramin 0x20000020 (oneBlock 0)).mem 1 = 1 ∧
      MallocInv iramAreas .sramin [⟨1, 1⟩] (oneBlock 0) ∧
      ¬ FreesBlock iramAreas .sramin ⟨1, 1⟩ (oneBlock 0) := by
  refine ⟨by decide, mallocInv_oneBlock 0, fun h => ?_⟩
  have hrun := h.covers (mallocInv_oneBlock 0) List.mem_cons_self (i := 1) (by decide)
  exact absurd hrun (by decide)

end Stm32F407.Malloc
