import Stm32F407.Malloc.Placement
import Stm32F407.Malloc.Replacement

/-!
# The replacement allocator against the one in use

The two allocators run side by side on one bank of the same sizes, each with its own pool and table,
on the same calls; a pointer is given by its offset in the pool. The sizes are parameters, so the
allocator in use is written once more over `Sizes`; at the sizes it is compiled with it is the one of
`Malloc.Model` (`mymallocAt_used` and its neighbours).

* `mymallocAt_failed`, `mymallocAt_found`: which requests an empty table meets.
* `both_empty_step`: a call that needs nothing from the bank leaves both empty.
* `replacement_agrees_iff`: the two agree along a whole run from empty tables iff no size asked for
  in it could be met, since the replacement meets none (`mallocApply_null`).
-/

namespace Stm32F407.Malloc

open Stm32F407.Lib

/-! ## The allocator in use, at any sizes -/

section

variable {S : Sizes} (P : Ponds S) (memx : Bank)

/-- `my_mem_init(memx)`. -/
def myMemInitAt (s : MallcoDev) : MallcoDev where
  memmap := Function.update s.memmap memx (fill (s.memmap memx) 0 0 (S.tableSize memx))
  mem := mymemset s.mem (P.pond memx) 0 (S.pondSize memx)
  memrdy := Function.update s.memrdy memx true

/-- `nmemb`. -/
def nmembAt (S : Sizes) (memx : Bank) (size : UInt32) : Nat :=
  if size.toNat % S.bankSize memx ≠ 0 then size.toNat / S.bankSize memx + 1
  else size.toNat / S.bankSize memx

/-- `my_mem_malloc(memx, size)`. -/
def myMemMallocAt (size : UInt32) (s : MallcoDev) : Nat × MallcoDev :=
  let s := if s.memrdy memx then s else myMemInitAt P memx s
  if size = 0 then (0xFFFFFFFF, s)
  else
    let nmemb := nmembAt S memx size
    match searchLoop (s.memmap memx) nmemb (S.tableSize memx) 0 with
    | some offset =>
      (offset * S.bankSize memx, { s with
        memmap := Function.update s.memmap memx
          (fill (s.memmap memx) offset (nmemb % 2 ^ 16) nmemb) })
    | none => (0xFFFFFFFF, s)

/-- `my_mem_free(memx, offset)`. -/
def myMemFreeAt (offset : Nat) (s : MallcoDev) : Nat × MallcoDev :=
  if s.memrdy memx = false then (1, myMemInitAt P memx s)
  else if offset < S.pondSize memx then
    let index := offset / S.bankSize memx
    let nmemb := s.memmap memx index
    (0, { s with memmap := Function.update s.memmap memx (fill (s.memmap memx) index 0 nmemb) })
  else (2, s)

/-- `myfree(memx, ptr)`. -/
def myfreeAt (ptr : Nat) (s : MallcoDev) : MallcoDev :=
  if ptr = NULL then s
  else (myMemFreeAt P memx ((ptr + 2 ^ 32 - P.pond memx) % 2 ^ 32) s).2

/-- `mymalloc(memx, size)`. -/
def mymallocAt (size : UInt32) (s : MallcoDev) : Nat × MallcoDev :=
  let r := myMemMallocAt P memx size s
  if r.1 = 0xFFFFFFFF then (NULL, r.2) else ((P.pond memx + r.1) % 2 ^ 32, r.2)

/-- `myrealloc(memx, ptr, size)`. -/
def myreallocAt (ptr : Nat) (size : UInt32) (s : MallcoDev) : Nat × MallcoDev :=
  let r := myMemMallocAt P memx size s
  if r.1 = 0xFFFFFFFF then (NULL, r.2)
  else
    let new := (P.pond memx + r.1) % 2 ^ 32
    let s := { r.2 with mem := mymemcpy r.2.mem new ptr size.toNat }
    (new, myfreeAt P memx ptr s)

end

/-- The sizes it is compiled with. -/
def usedSizes : Sizes where
  pondSize := memsize
  bankSize := memblksize
  tableSize := memtblsize
  bankSize_pos b := by rw [memblksize_eq]; decide
  tableSize_pos := memtblsize_pos
  blocks_le b := by rw [memblksize_eq, memsize_eq]

/-- The pools it is compiled with. -/
def Layout.ponds (L : Layout) : Ponds usedSizes where
  pond := L.membase
  pond_pos := L.membase_pos
  pond_le b := Nat.le_of_lt (L.membase_lt b)

theorem mymallocAt_used (L : Layout) : mymallocAt L.ponds = mymalloc L := rfl

theorem myreallocAt_used (L : Layout) : myreallocAt L.ponds = myrealloc L := rfl

theorem myfreeAt_used (L : Layout) : myfreeAt L.ponds = myfree L := rfl

/-! ## Both side by side -/

/-- The two allocators, and the offsets of the pointers that the one in use has handed out. -/
structure Both where
  old : MallcoDev
  new : MallocManage
  live : List Nat

/-- A call; pointers are offsets in the pool, and `none` is `NULL`. -/
inductive Call where
  | apply (size : UInt16)
  | reset (offset : Nat) (size : UInt16)
  | free (offset : Option Nat)
deriving DecidableEq, Repr

/-- The pointer to an offset of the pool at `base`. -/
def ptrOf (base : Nat) : Option Nat → Nat
  | none => NULL
  | some offset => base + offset

/-- The offset of a returned pointer, `none` for `NULL`. -/
def offsetOf (base ptr : Nat) : Option Nat := if ptr = NULL then none else some (ptr - base)

section

variable {S : Sizes} (P : Ponds S) (A : Areas S) (memx : Bank)

/-- A call of the allocator in use, with what it returns. -/
def oldCall (c : Call) (s : MallcoDev) : Option Nat × MallcoDev :=
  match c with
  | .apply size =>
    let r := mymallocAt P memx size.toUInt32 s
    (offsetOf (P.pond memx) r.1, r.2)
  | .reset offset size =>
    let r := myreallocAt P memx (P.pond memx + offset) size.toUInt32 s
    (offsetOf (P.pond memx) r.1, r.2)
  | .free offset => (none, myfreeAt P memx (ptrOf (P.pond memx) offset) s)

/-- A call of the replacement, with what it returns. -/
def newCall (c : Call) (s : MallocManage) : Option Nat × MallocManage :=
  match c with
  | .apply size =>
    let r := mallocApply A memx size s
    (offsetOf (A.pond memx) r.1, r.2)
  | .reset offset size =>
    let r := mallocReset A memx (A.pond memx + offset) size s
    (offsetOf (A.pond memx) r.1, r.2)
  | .free offset => (none, mallocFree A memx (ptrOf (A.pond memx) offset) s)

/-- The live offsets after a call that has returned `result`. -/
def liveAfter (live : List Nat) (result : Option Nat) : Call → List Nat
  | .apply _ => result.toList ++ live
  | .reset offset _ => if result = none then live else result.toList ++ live.erase offset
  | .free none => live
  | .free (some offset) => live.erase offset

/-- One call, made to both. -/
def bothStep (s : Both) (c : Call) : Both where
  old := (oldCall P memx c s.old).2
  new := (newCall A memx c s.new).2
  live := liveAfter s.live (oldCall P memx c s.old).1 c

/-- Only live pointers are reset and freed, or `NULL` is freed. -/
def LegalCall (s : Both) : Call → Prop
  | .apply _ => True
  | .reset offset _ => offset ∈ s.live
  | .free none => True
  | .free (some offset) => offset ∈ s.live

/-- The two return the same, and have the same table afterwards. -/
structure Lockstep (s : Both) (c : Call) : Prop where
  result : (newCall A memx c s.new).1 = (oldCall P memx c s.old).1
  table : ∀ i, i < S.tableSize memx →
    (tableEntry A memx (bothStep P A memx s c).new.mem i).toNat =
      (bothStep P A memx s c).old.memmap memx i

/-- Both initialised, both tables empty, and nothing handed out. -/
structure BothEmpty (s : Both) : Prop where
  memrdy : s.old.memrdy memx = true
  memmap : ∀ i, i < S.tableSize memx → s.old.memmap memx i = 0
  ready : s.new.mallocReadyArr memx = true
  table : ∀ i, i < S.tableSize memx → tableEntry A memx s.new.mem i = 0
  live : s.live = []

/-- A request for nothing, or for more blocks than the table has. -/
def Unmet (S : Sizes) (memx : Bank) (size : UInt16) : Prop :=
  size = 0 ∨ S.tableSize memx < bankNumOf S memx size

/-- Every size that a call asks for is `Unmet`. -/
def Call.Unmet (S : Sizes) (memx : Bank) : Call → Prop
  | .apply size => Malloc.Unmet S memx size
  | .reset _ size => Malloc.Unmet S memx size
  | .free _ => True

end

variable {S : Sizes} {P : Ponds S} {A : Areas S} {memx : Bank}

/-! ## An empty bank -/

theorem nmembAt_toUInt32 (S : Sizes) (memx : Bank) (size : UInt16) :
    nmembAt S memx size.toUInt32 = bankNumOf S memx size := by
  unfold nmembAt bankNumOf
  rw [UInt16.toNat_toUInt32]

theorem toUInt32_eq_zero_iff (size : UInt16) : size.toUInt32 = 0 ↔ size = 0 := by
  rw [← UInt32.toNat_inj, ← UInt16.toNat_inj, UInt16.toNat_toUInt32]
  rfl

/-- A request that no table meets. -/
theorem mymallocAt_failed {s : MallcoDev} (hready : s.memrdy memx = true) {size : UInt16}
    (h : Unmet S memx size) : mymallocAt P memx size.toUInt32 s = (NULL, s) := by
  have hinner : myMemMallocAt P memx size.toUInt32 s = (0xFFFFFFFF, s) := by
    unfold myMemMallocAt
    simp only [hready, if_true, toUInt32_eq_zero_iff, nmembAt_toUInt32]
    by_cases h0 : size = 0
    · rw [if_pos h0]
    · rw [if_neg h0]
      have hspec := searchLoop_spec (scanned_init (s.memmap memx) (S.tableSize memx)
        (bankNumOf_pos S memx h0))
      cases hsearch : searchLoop (s.memmap memx) (bankNumOf S memx size) (S.tableSize memx) 0 with
      | none => rfl
      | some offset =>
        -- a run that was found would be longer than the table
        rw [hsearch] at hspec
        have hrun := hspec.1.1
        have hmore := h.resolve_left h0
        omega
  unfold mymallocAt
  rw [hinner]
  rfl

/-- Any other request is met by an empty table. -/
theorem mymallocAt_found {s : MallcoDev} (hready : s.memrdy memx = true)
    (hempty : ∀ i, i < S.tableSize memx → s.memmap memx i = 0) {size : UInt16}
    (h : ¬ Unmet S memx size) : (mymallocAt P memx size.toUInt32 s).1 ≠ NULL := by
  obtain ⟨h0, hfits⟩ := not_or.mp h
  have hspec := searchLoop_spec (scanned_init (s.memmap memx) (S.tableSize memx)
    (bankNumOf_pos S memx h0))
  cases hsearch : searchLoop (s.memmap memx) (bankNumOf S memx size) (S.tableSize memx) 0 with
  | none =>
    rw [hsearch] at hspec
    exact absurd ⟨by omega, fun i _ hi => hempty i (by omega)⟩ (hspec 0)
  | some offset =>
    rw [hsearch] at hspec
    have hrun := hspec.1.1
    have hpos := bankNumOf_pos S memx h0
    have hpond := P.pond_pos memx
    have hle := P.pond_le memx
    have hin : offset * S.bankSize memx < S.pondSize memx := S.offset_lt (by omega)
    have hinner : (myMemMallocAt P memx size.toUInt32 s).1 = offset * S.bankSize memx := by
      unfold myMemMallocAt
      simp only [hready, if_true, toUInt32_eq_zero_iff, nmembAt_toUInt32]
      rw [if_neg h0, hsearch]
    unfold mymallocAt
    dsimp only
    rw [hinner, if_neg (by omega), Nat.mod_eq_of_lt (by omega)]
    unfold NULL
    omega

/-! ## Runs -/

variable {s : Both} {c : Call}

theorem BothEmpty.not_live (h : BothEmpty A memx s) (offset : Nat) : offset ∉ s.live := by
  rw [h.live]
  exact List.not_mem_nil

/-- A call that needs nothing from an empty bank: both do nothing. -/
theorem BothEmpty.calls (h : BothEmpty A memx s) (hlegal : LegalCall s c)
    (hunmet : c.Unmet S memx) :
    oldCall P memx c s.old = (none, s.old) ∧ newCall A memx c s.new = (none, s.new) := by
  cases c with
  | apply size =>
    unfold oldCall newCall
    dsimp only
    rw [mymallocAt_failed h.memrdy hunmet, mallocApply_null, if_pos (.inr h.ready)]
    exact ⟨rfl, rfl⟩
  | reset offset size => exact absurd hlegal (h.not_live offset)
  | free offset =>
    cases offset with
    | none => exact ⟨rfl, rfl⟩
    | some offset => exact absurd hlegal (h.not_live offset)

/-- **One call**, of a bank that is empty: it stays as it is. -/
theorem both_empty_step (h : BothEmpty A memx s) (hlegal : LegalCall s c)
    (hunmet : c.Unmet S memx) : bothStep P A memx s c = s := by
  obtain ⟨hold, hnew⟩ := h.calls (P := P) hlegal hunmet
  unfold bothStep
  rw [hold, hnew]
  cases c with
  | apply size => rfl
  | reset offset size => rfl
  | free offset =>
    cases offset with
    | none => rfl
    | some offset => exact absurd hlegal (h.not_live offset)

theorem lockstep_of_unmet (h : BothEmpty A memx s) (hlegal : LegalCall s c)
    (hunmet : c.Unmet S memx) : Lockstep P A memx s c where
  result := by
    obtain ⟨hold, hnew⟩ := h.calls (P := P) hlegal hunmet
    rw [hold, hnew]
  table i hi := by
    rw [both_empty_step h hlegal hunmet, h.table i hi, h.memmap i hi]
    rfl

/-- A request that the allocator in use meets is where the two part. -/
theorem unmet_of_lockstep (h : BothEmpty A memx s) (hlegal : LegalCall s c)
    (hlock : Lockstep P A memx s c) : c.Unmet S memx := by
  cases c with
  | apply size =>
    by_contra hmet
    have hfound := @mymallocAt_found S P memx s.old h.memrdy h.memmap size hmet
    have hresult := hlock.result
    unfold oldCall newCall offsetOf at hresult
    dsimp only at hresult
    rw [mallocApply_null, if_pos rfl, if_neg hfound] at hresult
    cases hresult
  | reset offset size => exact absurd hlegal (h.not_live offset)
  | free offset => trivial

/-- **When the replacement does what the allocator in use does**, along a whole run from empty
tables: when every size that is asked for is zero or too much for the whole table. -/
theorem replacement_agrees_iff (S : Sizes) (P : Ponds S) (A : Areas S) (memx : Bank) (s : Both)
    (h : BothEmpty A memx s) (calls : List Call)
    (hlegal : AllSteps (bothStep P A memx) LegalCall s calls) :
    AllSteps (bothStep P A memx) (Lockstep P A memx) s calls ↔ ∀ c ∈ calls, c.Unmet S memx := by
  have hevents : AllSteps (bothStep P A memx) (fun _ c => c.Unmet S memx) s calls ↔
      ∀ c ∈ calls, c.Unmet S memx := allSteps_event
  rw [← hevents]
  refine allSteps_iff_of_assume ?_ ?_ h hlegal
  · intro s c hs hc hunmet
    rw [both_empty_step hs hc hunmet]
    exact hs
  · intro s c hs hc
    exact ⟨unmet_of_lockstep hs hc, lockstep_of_unmet hs hc⟩

/-- Both with all memory zero. -/
def bothZero : Both where
  old := ⟨fun _ _ => 0, fun _ => true, fun _ => 0⟩
  new := ⟨fun _ => true, fun _ => 0⟩
  live := []

theorem bothEmpty_zero (A : Areas S) (memx : Bank) : BothEmpty A memx bothZero where
  memrdy := rfl
  memmap _ _ := rfl
  ready := rfl
  table _ _ := rfl
  live := rfl

/-- Nothing is asked for, and nothing is given back. -/
theorem replacement_agrees_nothing :
    AllSteps (bothStep iramAreas.toPonds iramAreas .sramccm)
      (Lockstep iramAreas.toPonds iramAreas .sramccm) bothZero [.apply 0, .free none] :=
  (replacement_agrees_iff headerSizes iramAreas.toPonds iramAreas .sramccm bothZero
    (bothEmpty_zero iramAreas .sramccm) [.apply 0, .free none] ⟨trivial, trivial, trivial⟩).mpr
    (by simp [Call.Unmet, Unmet])

/-- One byte: the allocator in use hands out the last block of the pool, the replacement none. -/
theorem replacement_parts_one :
    (oldCall iramAreas.toPonds .sramccm (.apply 1) bothZero.old).1 = some 0xFFE0 ∧
      (newCall iramAreas .sramccm (.apply 1) bothZero.new).1 = none ∧
      ¬ AllSteps (bothStep iramAreas.toPonds iramAreas .sramccm)
        (Lockstep iramAreas.toPonds iramAreas .sramccm) bothZero [.apply 1] := by
  have hold : (oldCall iramAreas.toPonds .sramccm (.apply 1) bothZero.old).1 = some 0xFFE0 := rfl
  have hnew : (newCall iramAreas .sramccm (.apply 1) bothZero.new).1 = none := by
    unfold newCall
    dsimp only
    rw [mallocApply_null]
    rfl
  refine ⟨hold, hnew, fun h => ?_⟩
  have hresult := h.1.result
  rw [hold, hnew] at hresult
  cases hresult

end Stm32F407.Malloc
