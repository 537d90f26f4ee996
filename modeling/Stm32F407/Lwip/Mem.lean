import Stm32F407.Lib.Bytes
import Stm32F407.Lib.Tiling

/-!
# The heap of lwIP: `mem.c`

Model of the allocator behind `mem_malloc`, on the bytes of the heap.

* A `struct mem` is its offset in `ram`, as `mem_to_ptr` gives it; a client's pointer is an address,
  and `NULL` is `none` as a result and 0 as an argument. The fields lie at the offsets 0 (`next`),
  2 (`prev`) and 4 (`used`) of the eight bytes of `SIZEOF_STRUCT_MEM`.
* `mem_size_t` is `u16_t`: a stored offset is taken modulo `2^16`, and the room in a block, which the
  code computes in the unsigned arithmetic of `sizeof`, modulo `2^32`.
* The two loops of `mem_malloc` follow `next` and get `MEM_SIZE_ALIGNED` rounds; `MemOps.lean` shows
  that they end before.
* Assertions, the overflow check and the freeing from other contexts are off in this configuration,
  and with `NO_SYS` the mutex is nothing.
-/

namespace Stm32F407.Lwip.Mem

open Stm32F407.Lib

/-- `MEM_SIZE_ALIGNED`. -/
def memSizeAligned : Nat := 16000

/-- `SIZEOF_STRUCT_MEM`. -/
def sizeofStructMem : Nat := 8

/-- `MIN_SIZE_ALIGNED`. -/
def minSizeAligned : Nat := 12

/-- `MEM_ALIGNMENT`. -/
def memAlignment : Nat := 4

/-- `LWIP_MEM_ALIGN_SIZE`. -/
def lwipMemAlignSize (size : Nat) : Nat :=
  (size + memAlignment - 1) / memAlignment * memAlignment

/-- `ram`, the bytes it points into, `lfree`, and `lwip_stats.mem`. -/
structure Heap where
  ram : Nat
  mem : Nat → UInt8
  lfree : Nat
  statUsed : Nat
  statMax : Nat
  statErr : Nat
  statIllegal : Nat

variable (h : Heap)

/-- `ptr_to_mem(p)->next`. -/
def Heap.next (p : Nat) : Nat := (readHalf h.mem (h.ram + p)).toNat

/-- `ptr_to_mem(p)->prev`. -/
def Heap.prev (p : Nat) : Nat := (readHalf h.mem (h.ram + p + 2)).toNat

/-- `ptr_to_mem(p)->used`. -/
def Heap.used (p : Nat) : UInt8 := h.mem (h.ram + p + 4)

/-- `ptr_to_mem(p)->next = v`. -/
def Heap.setNext (p v : Nat) : Heap := { h with mem := writeHalf h.mem (h.ram + p) (.ofNat v) }

/-- `ptr_to_mem(p)->prev = v`. -/
def Heap.setPrev (p v : Nat) : Heap := { h with mem := writeHalf h.mem (h.ram + p + 2) (.ofNat v) }

/-- `ptr_to_mem(p)->used = v`. -/
def Heap.setUsed (p : Nat) (v : UInt8) : Heap :=
  { h with mem := Function.update h.mem (h.ram + p + 4) v }

/-- `MEM_STATS_INC_USED`. -/
def Heap.incUsed (n : Nat) : Heap :=
  let used := (h.statUsed + n) % 2 ^ 16
  { h with statUsed := used, statMax := max h.statMax used }

/-- `MEM_STATS_DEC_USED`. -/
def Heap.decUsed (n : Nat) : Heap := { h with statUsed := (h.statUsed + 2 ^ 16 - n) % 2 ^ 16 }

/-- `MEM_STATS_INC_LOCKED(illegal)`. -/
def Heap.incIllegal : Heap := { h with statIllegal := (h.statIllegal + 1) % 2 ^ 16 }

/-- `MEM_STATS_INC(err)`. -/
def Heap.incErr : Heap := { h with statErr := (h.statErr + 1) % 2 ^ 16 }

/-- `mem_init`, in a memory whose bytes are `mem`; `ram` is aligned. -/
def memInit (ram : Nat) (mem : Nat → UInt8) : Heap :=
  let h : Heap := ⟨ram, mem, 0, 0, 0, 0, 0⟩
  let h := ((h.setNext 0 memSizeAligned).setPrev 0 0).setUsed 0 0
  ((h.setUsed memSizeAligned 1).setNext memSizeAligned memSizeAligned).setPrev memSizeAligned
    memSizeAligned

/-- The body of both halves of `plug_holes`: `nmem` becomes part of the `mem` in front of it. -/
def combine (mem nmem : Nat) : Heap :=
  let h := if h.lfree = nmem then { h with lfree := mem } else h
  let h := h.setNext mem (h.next nmem)
  if h.next nmem ≠ memSizeAligned then h.setPrev (h.next nmem) mem else h

/-- `plug_holes`. -/
def plugHoles (mem : Nat) : Heap :=
  let nmem := h.next mem
  let h := if mem ≠ nmem ∧ h.used nmem = 0 ∧ nmem ≠ memSizeAligned then combine h mem nmem else h
  let pmem := h.prev mem
  if pmem ≠ mem ∧ h.used pmem = 0 then combine h pmem mem else h

/-- `mem_link_valid`. -/
def MemLinkValid (mem : Nat) : Prop :=
  ¬ (memSizeAligned < h.next mem ∨ memSizeAligned < h.prev mem ∨
    (h.prev mem ≠ mem ∧ h.next (h.prev mem) ≠ mem) ∨
    (h.next mem ≠ memSizeAligned ∧ h.prev (h.next mem) ≠ mem))

instance MemLinkValid.instDecidable (mem : Nat) : Decidable (MemLinkValid h mem) :=
  inferInstanceAs (Decidable (¬ _))

/-- `mem_free`. -/
def memFree (rmem : Nat) : Heap :=
  if rmem = 0 then h
  else if rmem % memAlignment ≠ 0 then h.incIllegal
  else if rmem - sizeofStructMem < h.ram ∨ h.ram + memSizeAligned < rmem + minSizeAligned then
    h.incIllegal
  else
    let mem := rmem - sizeofStructMem - h.ram
    if h.used mem = 0 then h.incIllegal
    else if ¬ MemLinkValid h mem then h.incIllegal
    else
      let h := h.setUsed mem 0
      let h := if mem < h.lfree then { h with lfree := mem } else h
      let h := h.decUsed (h.next mem - mem)
      plugHoles h mem

/-- `mem_trim`: the result, and the heap. -/
def memTrim (rmem newSize : Nat) : Option Nat × Heap :=
  let newsize := max (lwipMemAlignSize newSize % 2 ^ 16) minSizeAligned
  if memSizeAligned < newsize ∨ newsize < newSize then (none, h)
  else if rmem < h.ram ∨ h.ram + memSizeAligned ≤ rmem then (some rmem, h.incIllegal)
  else
    let ptr := rmem - sizeofStructMem - h.ram
    let size := ((h.next ptr + 2 ^ 16 - ptr) % 2 ^ 16 + 2 ^ 16 - sizeofStructMem) % 2 ^ 16
    if size < newsize then (none, h)
    else if newsize = size then (some rmem, h)
    else
      let mem2 := h.next ptr
      let ptr2 := (ptr + sizeofStructMem + newsize) % 2 ^ 16
      if h.used mem2 = 0 then
        let next := h.next mem2
        let h := if h.lfree = mem2 then { h with lfree := ptr2 } else h
        let h := (((h.setUsed ptr2 0).setNext ptr2 next).setPrev ptr2 ptr).setNext ptr ptr2
        let h := if h.next ptr2 ≠ memSizeAligned then h.setPrev (h.next ptr2) ptr2 else h
        (some rmem, h.decUsed (size - newsize))
      else if newsize + sizeofStructMem + minSizeAligned ≤ size then
        let h := if ptr2 < h.lfree then { h with lfree := ptr2 } else h
        let h := (((h.setUsed ptr2 0).setNext ptr2 (h.next ptr)).setPrev ptr2 ptr).setNext ptr ptr2
        let h := if h.next ptr2 ≠ memSizeAligned then h.setPrev (h.next ptr2) ptr2 else h
        (some rmem, h.decUsed (size - newsize))
      else (some rmem, h)

/-- `mem->next - (ptr + SIZEOF_STRUCT_MEM)`. -/
def Heap.room (ptr : Nat) : Nat := (h.next ptr + 2 ^ 32 - (ptr + sizeofStructMem)) % 2 ^ 32

/-- The scan of `mem_malloc`: the first `ptr` from the given one on with room for `size` bytes, if there
is one; `none` when the loop is not left within the given number of rounds. -/
def scan (size : Nat) : Nat → Nat → Option (Option Nat)
  | 0, _ => none
  | fuel + 1, ptr =>
    if ptr < memSizeAligned - size then
      if h.used ptr = 0 ∧ size ≤ h.room ptr then some (some ptr) else scan size fuel (h.next ptr)
    else some none

/-- `while (cur->used && cur != ram_end) cur = ptr_to_mem(cur->next)`; `none` when the loop is not left
within the given number of rounds. -/
def nextFree : Nat → Nat → Option Nat
  | 0, _ => none
  | fuel + 1, cur =>
    if h.used cur ≠ 0 ∧ cur ≠ memSizeAligned then nextFree fuel (h.next cur) else some cur

/-- The block at `ptr` is given away; the rest is split off when it is large enough. -/
def take (ptr size : Nat) : Heap :=
  if size + sizeofStructMem + minSizeAligned ≤ h.room ptr then
    let ptr2 := (ptr + sizeofStructMem + size) % 2 ^ 16
    let h := ((h.setUsed ptr2 0).setNext ptr2 (h.next ptr)).setPrev ptr2 ptr
    let h := (h.setNext ptr ptr2).setUsed ptr 1
    let h := if h.next ptr2 ≠ memSizeAligned then h.setPrev (h.next ptr2) ptr2 else h
    h.incUsed (size + sizeofStructMem)
  else
    let h := h.setUsed ptr 1
    h.incUsed (h.next ptr - ptr)

/-- `mem_malloc`: the pointer, and the heap. The loops have as many rounds as the heap has bytes. -/
def memMalloc (sizeIn : Nat) : Option Nat × Heap :=
  if sizeIn = 0 then (none, h)
  else
    let size := max (lwipMemAlignSize sizeIn % 2 ^ 16) minSizeAligned
    if memSizeAligned < size ∨ size < sizeIn then (none, h)
    else
      match (scan h size memSizeAligned h.lfree).join with
      | none => (none, h.incErr)
      | some ptr =>
        let h' := take h ptr size
        let h' := if ptr = h.lfree then
            { h' with lfree := (nextFree h' memSizeAligned ptr).getD ptr }
          else h'
        (some (h.ram + ptr + sizeofStructMem), h')

/-- `mem_calloc`. -/
def memCalloc (count size : Nat) : Option Nat × Heap :=
  let allocSize := count * size
  if allocSize % 2 ^ 16 ≠ allocSize then (none, h)
  else
    match memMalloc h allocSize with
    | (none, h) => (none, h)
    | (some p, h) => (some p, { h with mem := blit h.mem p (List.replicate allocSize 0) })

end Stm32F407.Lwip.Mem
