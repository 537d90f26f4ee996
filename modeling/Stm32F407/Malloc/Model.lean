import Stm32F407.Lib.Blocks

/-!
# The bank allocator of `malloc.c` (`USE_NEW_MALLOC_MOD = 0`)

Model of `mymemcpy`, `mymemset`, `my_mem_init`, `my_mem_perused`, `my_mem_malloc`, `my_mem_free`,
`myfree`, `mymalloc` and `myrealloc` (`Users/Main/src/malloc.c`) over the device record
`mallco_dev`.

* The three pools are byte ranges of one address space `mem`; `membase` gives their first
  addresses. The linker chooses only the one of the internal pool, so `Layout` carries the
  addresses together with what the source and the memory map of the project fix about them.
* `memmap` is the management table of each bank, one `uint16_t` entry per block of 32 bytes. An
  entry is a `Nat` and a store into it is reduced modulo `2^16`.
* Pointers and offsets are `Nat` with the 32-bit reductions of the source written out, and
  `NULL` is `0`. Sizes are `UInt32`.
* `mymemset` over a table clears its `2 * memtblsize` bytes, which are its `memtblsize` entries.
-/

namespace Stm32F407.Malloc

open Stm32F407.Lib

/-- `SRAMIN`, `SRAMEX` and `SRAMCCM`. -/
inductive Bank where
  | sramin
  | sramex
  | sramccm
deriving DecidableEq, Repr

/-- `memsize`: the bytes of each pool. -/
def memsize : Bank → Nat
  | .sramin => 30 * 1024
  | .sramex => 200 * 1024
  | .sramccm => 60 * 1024

/-- `memblksize`: the bytes of one block. -/
def memblksize : Bank → Nat
  | .sramin => 32
  | .sramex => 32
  | .sramccm => 32

/-- `memtblsize`: the entries of each management table. -/
def memtblsize : Bank → Nat
  | .sramin => 30 * 1024 / 32
  | .sramex => 200 * 1024 / 32
  | .sramccm => 60 * 1024 / 32

/-- `NULL`. -/
def NULL : Nat := 0

/-- Where the pools lie: the two placed by `__attribute__((at(..)))`, and the internal one
somewhere in the internal RAM of the project (`IRAM(0x20000000,0x00020000)`). -/
structure Layout where
  membase : Bank → Nat
  sramex_at : membase .sramex = 0x68000000
  sramccm_at : membase .sramccm = 0x10000000
  sramin_ge : 0x20000000 ≤ membase .sramin
  sramin_le : membase .sramin + memsize .sramin ≤ 0x20000000 + 0x20000

/-- `struct _m_mallco_dev`, with the memory its `membase` pointers lead to. -/
structure MallcoDev where
  memmap : Bank → Nat → Nat
  memrdy : Bank → Bool
  mem : Nat → UInt8

/-- `mymemset(s, c, count)`. -/
def mymemset (mem : Nat → UInt8) (s : Nat) (c : UInt8) (count : Nat) : Nat → UInt8 :=
  fill mem s c count

/-- `mymemcpy(des, src, n)`: byte by byte and forwards, so byte `n` is read after the first `n`
bytes have been stored. -/
def mymemcpy (mem : Nat → UInt8) (des src : Nat) : Nat → Nat → UInt8
  | 0 => mem
  | n + 1 =>
    Function.update (mymemcpy mem des src n) (des + n) (mymemcpy mem des src n (src + n))

section

variable (L : Layout) (memx : Bank)

/-- `my_mem_init(memx)`. -/
def myMemInit (s : MallcoDev) : MallcoDev where
  memmap := Function.update s.memmap memx (fill (s.memmap memx) 0 0 (memtblsize memx))
  mem := mymemset s.mem (L.membase memx) 0 (memsize memx)
  memrdy := Function.update s.memrdy memx true

/-- The loop of `my_mem_perused` over the first `n` entries. -/
def usedLoop (map : Nat → Nat) : Nat → Nat
  | 0 => 0
  | n + 1 => if map n ≠ 0 then usedLoop map n + 1 else usedLoop map n

/-- `my_mem_perused(memx)`, an `uint8_t`. -/
def myMemPerused (s : MallcoDev) : Nat :=
  usedLoop (s.memmap memx) (memtblsize memx) * 100 / memtblsize memx % 2 ^ 8

/-- The downward search of `my_mem_malloc`: `k` entries are still to be visited, and `cmemb` free
ones have been met in a row. -/
def searchLoop (map : Nat → Nat) (nmemb : Nat) : Nat → Nat → Option Nat
  | 0, _ => none
  | k + 1, cmemb =>
    let cmemb := if map k = 0 then cmemb + 1 else 0
    if cmemb = nmemb then some k else searchLoop map nmemb k cmemb

/-- `nmemb`: the blocks a request of `size` bytes needs. -/
def nmembOf (size : UInt32) : Nat :=
  if size.toNat % memblksize memx ≠ 0 then size.toNat / memblksize memx + 1
  else size.toNat / memblksize memx

/-- `my_mem_malloc(memx, size)`: the offset found, or `0xFFFFFFFF`. -/
def myMemMalloc (size : UInt32) (s : MallcoDev) : Nat × MallcoDev :=
  let s := if s.memrdy memx then s else myMemInit L memx s
  if size = 0 then (0xFFFFFFFF, s)
  else
    let nmemb := nmembOf memx size
    match searchLoop (s.memmap memx) nmemb (memtblsize memx) 0 with
    | some offset =>
      (offset * memblksize memx, { s with
        memmap := Function.update s.memmap memx
          (fill (s.memmap memx) offset (nmemb % 2 ^ 16) nmemb) })
    | none => (0xFFFFFFFF, s)

/-- `my_mem_free(memx, offset)`: `0` on success, `1` when the bank was not ready, `2` when the
offset lies outside the pool. -/
def myMemFree (offset : Nat) (s : MallcoDev) : Nat × MallcoDev :=
  if s.memrdy memx = false then (1, myMemInit L memx s)
  else if offset < memsize memx then
    let index := offset / memblksize memx
    let nmemb := s.memmap memx index
    (0, { s with memmap := Function.update s.memmap memx (fill (s.memmap memx) index 0 nmemb) })
  else (2, s)

/-- `myfree(memx, ptr)`. -/
def myfree (ptr : Nat) (s : MallcoDev) : MallcoDev :=
  if ptr = NULL then s
  else (myMemFree L memx ((ptr + 2 ^ 32 - L.membase memx) % 2 ^ 32) s).2

/-- `mymalloc(memx, size)`. -/
def mymalloc (size : UInt32) (s : MallcoDev) : Nat × MallcoDev :=
  let r := myMemMalloc L memx size s
  if r.1 = 0xFFFFFFFF then (NULL, r.2) else ((L.membase memx + r.1) % 2 ^ 32, r.2)

/-- `myrealloc(memx, ptr, size)`: allocate, copy `size` bytes from the old address, free. -/
def myrealloc (ptr : Nat) (size : UInt32) (s : MallcoDev) : Nat × MallcoDev :=
  let r := myMemMalloc L memx size s
  if r.1 = 0xFFFFFFFF then (NULL, r.2)
  else
    let new := (L.membase memx + r.1) % 2 ^ 32
    let s := { r.2 with mem := mymemcpy r.2.mem new ptr size.toNat }
    (new, myfree L memx ptr s)

end

end Stm32F407.Malloc
