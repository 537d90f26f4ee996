import Stm32F407.Malloc.Placement

/-!
# What `myrealloc` copies

The calls of `Malloc/Invariant.lean` leave the bytes of the pool to the program. Here a history also
has the program's stores: into its live blocks, and anywhere outside the pool and the management
table of the bank.

* `mymemcpy_apply`: the forward copy byte by byte, overlap included.
* `myrealloc_keeps`: in every reachable state a failing `myrealloc` changes nothing, and a
  successful one moves the block: the new block is apart from every live one and starts with the old
  bytes, the old entries are free, and the other live blocks keep entries and bytes.
* `myrealloc_noLeak_iff`: the copy takes the length of the new block from the old one's address.
  What the caller gets depends on memory that is not its own iff the bytes behind the old block, up
  to the new size, are not all in free entries or in the table.
-/

namespace Stm32F407.Malloc

open Stm32F407.Lib

/-! ## The forward copy -/

/-- Which byte of the source ends up as byte `i`: a destination above the source is read again once
the copy has reached it. -/
def copied (des src i : Nat) : Nat := if src < des then i % (des - src) else i

/-- **The copy loop of `mymemcpy`.** -/
theorem mymemcpy_apply (mem : Nat → UInt8) (des src n x : Nat) :
    mymemcpy mem des src n x =
      if des ≤ x ∧ x < des + n then mem (src + copied des src (x - des)) else mem x := by
  induction n generalizing x with
  | zero => rw [mymemcpy, if_neg (by omega)]
  | succ n ih =>
    -- the byte just read, which may have been stored by the copy itself
    have hread : mymemcpy mem des src n (src + n) = mem (src + copied des src n) := by
      rw [ih]
      unfold copied
      by_cases hlt : src < des
      · rw [if_pos hlt, if_pos hlt]
        by_cases hreach : des - src ≤ n
        · rw [if_pos (by omega), Nat.mod_eq_sub_mod hreach, show src + n - des = n - (des - src) by
            omega]
        · rw [if_neg (by omega), Nat.mod_eq_of_lt (by omega)]
      · rw [if_neg (by omega), if_neg hlt]
    rw [mymemcpy, Function.update_apply, hread, ih]
    by_cases hx : x = des + n
    · rw [if_pos hx, if_pos (by omega), hx, Nat.add_sub_cancel_left]
    · rw [if_neg hx]
      exact if_congr (by omega) rfl rfl

theorem copied_le (des src i : Nat) : copied des src i ≤ i := by
  unfold copied
  split
  · exact Nat.mod_le i _
  · exact Nat.le_refl i

/-- Before the copy reaches its own destination it reads the source as it was. -/
theorem copied_of_lt {des src i : Nat} (h : des ≤ src ∨ i < des - src) : copied des src i = i := by
  unfold copied
  split
  · exact Nat.mod_eq_of_lt (by omega)
  · rfl

/-! ## Histories with stores -/

/-- Where the management tables lie: two are placed behind their pools by `__attribute__((at(..)))`,
the internal one is somewhere in the internal RAM beside the pool. -/
structure Tables (L : Layout) where
  mapbase : Bank → Nat
  sramex_at : mapbase .sramex = 0x68000000 + memsize .sramex
  sramccm_at : mapbase .sramccm = 0x10000000 + memsize .sramccm
  sramin_ge : 0x20000000 ≤ mapbase .sramin
  sramin_le : mapbase .sramin + 2 * memtblsize .sramin ≤ 0x20000000 + 0x20000
  sramin_apart : mapbase .sramin + 2 * memtblsize .sramin ≤ L.membase .sramin ∨
    L.membase .sramin + memsize .sramin ≤ mapbase .sramin

section

variable (L : Layout) (T : Tables L) (memx : Bank)

/-- The address lies in the pool of the bank. -/
def InPool (addr : Nat) : Prop := L.membase memx ≤ addr ∧ addr < L.membase memx + memsize memx

/-- The address lies in the management table of the bank. -/
def InTable (addr : Nat) : Prop :=
  T.mapbase memx ≤ addr ∧ addr < T.mapbase memx + 2 * memtblsize memx

/-- The address lies in the block. -/
def InBlock (b : Block) (addr : Nat) : Prop :=
  addrOf L memx b ≤ addr ∧ addr < addrOf L memx b + 32 * b.count

/-- The address lies in a free entry of the pool. -/
def InFree (s : MallcoDev) (addr : Nat) : Prop :=
  InPool L memx addr ∧ s.memmap memx ((addr - L.membase memx) / 32) = 0

/-- What happens to a bank: a call of the allocator, or a store. -/
inductive HeapOp where
  | call (op : AllocOp)
  | store (addr : Nat) (v : UInt8)

/-- One call or store. -/
def heapStep (a : Alloc) : HeapOp → Alloc
  | .call op => allocStep L memx a op
  | .store addr v => { a with dev := { a.dev with mem := Function.update a.dev.mem addr v } }

/-- Calls are legal as before; stores go to a live block, or somewhere outside the bank. -/
def HeapLegal (a : Alloc) : HeapOp → Prop
  | .call op => Legal L memx a op
  | .store addr _ => (∃ b ∈ a.live, InBlock L memx b addr) ∨
      ¬ InPool L memx addr ∧ ¬ InTable L T memx addr

/-- The states of the legal histories from `my_mem_init(memx)`. -/
def Reachable (a : Alloc) : Prop :=
  ∃ s₀ ops, AllSteps (heapStep L memx) (HeapLegal L T memx) (allocInit L memx s₀) ops ∧
    run (heapStep L memx) (allocInit L memx s₀) ops = a

end

variable {L : Layout} {T : Tables L} {memx : Bank} {a : Alloc} {b : Block}

/-- Every reachable state satisfies the invariant of the allocator. -/
theorem Reachable.inv (h : Reachable L T memx a) : ∃ s₀, AllocInv memx s₀ a := by
  obtain ⟨s₀, ops, hlegal, rfl⟩ := h
  refine ⟨s₀, run_invariant (fun a op hP hO => ?_) (allocInv_init s₀) hlegal⟩
  cases op with
  | call op => exact allocInv_step a op hP hO
  | store addr v => exact ⟨hP.ready, hP.records, hP.frame⟩

/-- One more legal step. -/
theorem Reachable.step (h : Reachable L T memx a) {op : HeapOp} (hl : HeapLegal L T memx a op) :
    Reachable L T memx (heapStep L memx a op) := by
  obtain ⟨s₀, ops, hlegal, rfl⟩ := h
  refine ⟨s₀, ops ++ [op], (allSteps_append _ _ _).mpr ⟨hlegal, hl, trivial⟩, ?_⟩
  rw [run_append]
  rfl

/-! ## Moving a block -/

/-- What `myrealloc(memx, ptr, size)` does in state `a`, with `b` the live block at `ptr`. -/
structure ReallocLaw (L : Layout) (memx : Bank) (a : Alloc) (b : Block) (size : UInt32) :
    Prop where
  failed : (myrealloc L memx (addrOf L memx b) size a.dev).1 = NULL →
    (myrealloc L memx (addrOf L memx b) size a.dev).2 = a.dev ∧
      b ∈ (allocStep L memx a (.realloc (addrOf L memx b) size)).live
  moved : (myrealloc L memx (addrOf L memx b) size a.dev).1 ≠ NULL →
    ∃ c : Block, (myrealloc L memx (addrOf L memx b) size a.dev).1 = addrOf L memx c ∧
      c.count = (size.toNat + 31) / 32 ∧ c.start + c.count ≤ memtblsize memx ∧
      (∀ d ∈ a.live, c.Apart d) ∧
      (∀ i, c.Has i →
        (myrealloc L memx (addrOf L memx b) size a.dev).2.memmap memx i = c.count) ∧
      (∀ i, i < min size.toNat (32 * b.count) →
        (myrealloc L memx (addrOf L memx b) size a.dev).2.mem (addrOf L memx c + i) =
          a.dev.mem (addrOf L memx b + i)) ∧
      (∀ i, b.Has i → (myrealloc L memx (addrOf L memx b) size a.dev).2.memmap memx i = 0) ∧
      (∀ d ∈ a.live, d ≠ b →
        (∀ i, d.Has i → (myrealloc L memx (addrOf L memx b) size a.dev).2.memmap memx i =
          a.dev.memmap memx i) ∧
        ∀ addr, InBlock L memx d addr →
          (myrealloc L memx (addrOf L memx b) size a.dev).2.mem addr = a.dev.mem addr) ∧
      (allocStep L memx a (.realloc (addrOf L memx b) size)).live.Perm (c :: a.live.erase b)

/-- The address ranges of blocks apart do not meet. -/
theorem addr_apart (L : Layout) (memx : Bank) {c d : Block} (h : c.Apart d) :
    addrOf L memx c + 32 * c.count ≤ addrOf L memx d ∨
      addrOf L memx d + 32 * d.count ≤ addrOf L memx c := by
  unfold Block.Apart at h
  unfold addrOf
  omega

theorem reallocLaw_of_inv {s₀ : MallcoDev} (h : AllocInv memx s₀ a) (hb : b ∈ a.live)
    (size : UInt32) : ReallocLaw L memx a b size := by
  rcases myrealloc_spec (L := L) h hb size with hm | ⟨offset, hin, hpos, hz, hm⟩
  · refine ⟨fun _ => ⟨by rw [hm], ?_⟩, fun hne => absurd (by rw [hm]) hne⟩
    simp only [allocStep, hm, if_true]
    exact hb
  · have hins := h.insert hin hpos hz
    have hapart := (List.pairwise_cons.mp hins.apart).1
    have hnb := hapart b hb
    have hceil := nmembOf_eq memx size
    refine ⟨fun h0 => absurd h0 (by rw [hm]; exact addr_ne_null offset), fun _ =>
      ⟨⟨offset, nmembOf memx size⟩, by rw [hm]; rfl, hceil, hin, hapart, ?_, ?_, ?_, ?_, ?_⟩⟩
    · intro i hi
      rw [hm]
      simp only [Function.update_self]
      rw [paint_of_not_has (hnb.not_has hi), paint_of_has hi]
    · intro i hi
      have hdis := addr_apart L memx hnb
      rw [hm]
      simp only [addrOf] at hdis ⊢
      rw [mymemcpy_apply, if_pos (by omega), Nat.add_sub_cancel_left, copied_of_lt (by omega)]
    · intro i hi
      rw [hm]
      simp only [Function.update_self]
      exact paint_of_has hi
    · intro d hd hdb
      have hbd : b.Apart d := by
        have hperm := List.perm_cons_erase hb
        have hall := (hperm.pairwise_iff fun hab => Block.Apart.symm hab).mp h.records.apart
        exact (List.pairwise_cons.mp hall).1 d ((List.mem_erase_of_ne hdb).mpr hd)
      constructor
      · intro i hi
        rw [hm]
        simp only [Function.update_self]
        rw [paint_of_not_has (hbd.symm.not_has hi),
          paint_of_not_has ((hapart d hd).symm.not_has hi)]
      · intro addr haddr
        have hdis := addr_apart L memx (hapart d hd)
        unfold InBlock at haddr
        rw [hm]
        simp only [addrOf] at haddr hdis ⊢
        rw [mymemcpy_apply, if_neg (by omega)]
    · simp only [allocStep, hm]
      rw [if_neg (addr_ne_null offset), blockOf_addr]
      refine List.Perm.cons _ ?_
      exact List.Perm.cons_inv
        ((perm_released h.records hb).symm.trans (List.perm_cons_erase hb))

/-- **`myrealloc` keeps the data and is atomic on failure**, in every reachable state. -/
theorem myrealloc_keeps (L : Layout) (T : Tables L) (memx : Bank) {a : Alloc}
    (h : Reachable L T memx a) {b : Block} (hb : b ∈ a.live) (size : UInt32) :
    ReallocLaw L memx a b size := by
  obtain ⟨s₀, hinv⟩ := h.inv
  exact reallocLaw_of_inv hinv hb size

/-- The internal table right behind the internal pool. -/
def iramTables : Tables iramLayout where
  mapbase
    | .sramin => 0x20000000 + 30 * 1024
    | .sramex => 0x68000000 + 200 * 1024
    | .sramccm => 0x10000000 + 60 * 1024
  sramex_at := rfl
  sramccm_at := rfl
  sramin_ge := by decide
  sramin_le := by decide
  sramin_apart := by decide

/-- Two blocks of one entry each, the lower one with a byte stored into it. -/
def twoBlocks : Alloc :=
  run (heapStep iramLayout .sramin) (allocInit iramLayout .sramin blankDev)
    [.call (.malloc 32), .call (.malloc 32), .store (0x20000000 + 32 * 958) 7]

theorem twoBlocks_live : twoBlocks.live = [⟨958, 1⟩, ⟨959, 1⟩] := by decide +kernel

theorem twoBlocks_reachable : Reachable iramLayout iramTables .sramin twoBlocks :=
  ⟨blankDev, [.call (.malloc 32), .call (.malloc 32), .store (0x20000000 + 32 * 958) 7],
    ⟨trivial, trivial, Or.inl ⟨⟨958, 1⟩, by decide +kernel, by decide, by decide⟩, trivial⟩, rfl⟩

/-- The lower block grows to two entries and keeps its byte. -/
theorem myrealloc_keeps_twoBlocks :
    (myrealloc iramLayout .sramin (0x20000000 + 32 * 958) 64 twoBlocks.dev).1 =
        0x20000000 + 32 * 956 ∧
      ReallocLaw iramLayout .sramin twoBlocks ⟨958, 1⟩ 64 :=
  ⟨by decide +kernel,
    myrealloc_keeps iramLayout iramTables .sramin twoBlocks_reachable (by rw [twoBlocks_live]; simp)
      64⟩

/-! ## What the caller gets -/

/-- Two states that differ neither in the table, nor in the block `b`, nor in the free area. The
bytes of the table lie in memory too, so they are the same in both. -/
structure Agree (L : Layout) (T : Tables L) (memx : Bank) (b : Block) (a a' : Alloc) : Prop where
  live : b ∈ a'.live
  table : ∀ i, i < memtblsize memx → a'.dev.memmap memx i = a.dev.memmap memx i
  block : ∀ addr, InBlock L memx b addr → a'.dev.mem addr = a.dev.mem addr
  free : ∀ addr, InFree L memx a.dev addr → a'.dev.mem addr = a.dev.mem addr
  storage : ∀ addr, InTable L T memx addr → a'.dev.mem addr = a.dev.mem addr

/-- `myrealloc` of the block `b` shows its caller nothing but the block, the free area and the
table: it returns the same bytes in every reachable state that agrees on these. -/
def NoLeak (L : Layout) (T : Tables L) (memx : Bank) (a : Alloc) (b : Block) (size : UInt32) :
    Prop :=
  (myrealloc L memx (addrOf L memx b) size a.dev).1 ≠ NULL →
    ∀ a', Reachable L T memx a' → Agree L T memx b a a' →
      (myrealloc L memx (addrOf L memx b) size a'.dev).1 =
        (myrealloc L memx (addrOf L memx b) size a.dev).1 ∧
      ∀ i, i < size.toNat →
        (myrealloc L memx (addrOf L memx b) size a'.dev).2.mem
            ((myrealloc L memx (addrOf L memx b) size a.dev).1 + i) =
          (myrealloc L memx (addrOf L memx b) size a.dev).2.mem
            ((myrealloc L memx (addrOf L memx b) size a.dev).1 + i)

/-- No room is found for the request, or all the bytes behind the old block that lie within the new
size are in free entries of the pool or in the table. -/
def ReadsOwn (L : Layout) (T : Tables L) (memx : Bank) (a : Alloc) (b : Block) (size : UInt32) :
    Prop :=
  size = 0 ∨ (∀ o, ¬ FreeRun (a.dev.memmap memx) (memtblsize memx) (nmembOf memx size) o) ∨
    ∀ i, 32 * b.count ≤ i → i < size.toNat →
      InFree L memx a.dev (addrOf L memx b + i) ∨ InTable L T memx (addrOf L memx b + i)

variable {size : UInt32} {o : Nat}

/-- Without room, `myrealloc` returns `NULL`. -/
theorem myrealloc_null {s₀ : MallcoDev} (h : AllocInv memx s₀ a)
    (hno : size = 0 ∨
      ∀ o, ¬ FreeRun (a.dev.memmap memx) (memtblsize memx) (nmembOf memx size) o) (ptr : Nat) :
    (myrealloc L memx ptr size a.dev).1 = NULL := by
  have hfail := (myMemMalloc_placement L memx size a.dev h.ready).fails_iff.mpr hno
  simp only [myrealloc, hfail, if_true]

/-- With room, the block moves to the highest free run. -/
theorem myrealloc_placed {s₀ : MallcoDev} (h : AllocInv memx s₀ a) (hb : b ∈ a.live)
    (hsize : size ≠ 0)
    (ho : IsGreatest {o | FreeRun (a.dev.memmap memx) (memtblsize memx) (nmembOf memx size) o} o) :
    (myrealloc L memx (addrOf L memx b) size a.dev).1 = L.membase memx + 32 * o ∧
      (myrealloc L memx (addrOf L memx b) size a.dev).2.mem =
        mymemcpy a.dev.mem (L.membase memx + 32 * o) (addrOf L memx b) size.toNat := by
  have hlaw := myMemMalloc_placement L memx size a.dev h.ready
  have hok : (myMemMalloc L memx size a.dev).1 ≠ 0xFFFFFFFF := by
    intro hfail
    rcases hlaw.fails_iff.mp hfail with h0 | hno
    · exact hsize h0
    · exact hno o ho.1
  obtain ⟨o', ho', hm⟩ := hlaw.placed hok
  obtain rfl : o' = o := ho'.unique ho
  rw [myrealloc_of_run h hb ho.1.1 (nmembOf_pos memx hsize) ho.1.2 hm]
  exact ⟨rfl, rfl⟩

/-- The free runs are read off the entries of the table. -/
theorem freeRun_congr {map map' : Nat → Nat} {N n s : Nat} (h : ∀ i, i < N → map' i = map i) :
    FreeRun map' N n s ↔ FreeRun map N n s := by
  unfold FreeRun
  refine and_congr_right fun hin => ?_
  constructor
  · intro hz i hi hlt
    rw [← h i (by omega)]
    exact hz i hi hlt
  · intro hz i hi hlt
    rw [h i (by omega)]
    exact hz i hi hlt

/-- A byte of the pool that is not free lies in a live block. -/
theorem inBlock_of_not_free {s₀ : MallcoDev} (h : AllocInv memx s₀ a) {addr : Nat}
    (hin : InPool L memx addr) (hno : ¬ InFree L memx a.dev addr) :
    ∃ c ∈ a.live, InBlock L memx c addr := by
  have hsz := memsize_eq memx
  by_contra hnone
  refine hno ⟨hin, h.records.free _ ?_ fun c hc hhas => hnone ⟨c, hc, ?_⟩⟩
  · unfold InPool at hin
    omega
  · unfold InPool at hin
    unfold Block.Has at hhas
    unfold InBlock addrOf
    omega

/-- A byte the copy reads behind the old block, in memory that is neither free nor the table's, is
read before the copy's own stores reach it: the new block is in free entries. -/
theorem copied_foreign {i : Nat}
    (ho : FreeRun (a.dev.memmap memx) (memtblsize memx) (nmembOf memx size) o)
    (hi : i < size.toNat) (hno : ¬ InFree L memx a.dev (addrOf L memx b + i)) :
    copied (L.membase memx + 32 * o) (addrOf L memx b) i = i := by
  have hsz := memsize_eq memx
  have hceil := nmembOf_eq memx size
  have hin := ho.1
  refine copied_of_lt ?_
  by_contra hover
  refine hno ⟨?_, ho.2 _ ?_ ?_⟩
  · unfold InPool addrOf at *
    omega
  · unfold addrOf at *
    omega
  · unfold addrOf at *
    omega

/-- **Sufficient**: the copy reads only what the two states share. -/
theorem noLeak_of_readsOwn {s₀ : MallcoDev} (h : AllocInv memx s₀ a) (hb : b ∈ a.live)
    (hown : ReadsOwn L T memx a b size) : NoLeak L T memx a b size := by
  intro hne a' hreach hagree
  obtain ⟨s₁, hinv'⟩ := hreach.inv
  have hroom : ¬ (size = 0 ∨
      ∀ o, ¬ FreeRun (a.dev.memmap memx) (memtblsize memx) (nmembOf memx size) o) :=
    fun hno => hne (myrealloc_null h hno _)
  have hsize : size ≠ 0 := fun h0 => hroom (Or.inl h0)
  have hlaw := myMemMalloc_placement L memx size a.dev h.ready
  obtain ⟨o, ho, -⟩ := hlaw.placed fun hfail => hroom (hlaw.fails_iff.mp hfail)
  have ho' : IsGreatest
      {o | FreeRun (a'.dev.memmap memx) (memtblsize memx) (nmembOf memx size) o} o := by
    simpa only [freeRun_congr hagree.table] using ho
  obtain ⟨hptr, hmem⟩ := myrealloc_placed (L := L) h hb hsize ho
  obtain ⟨hptr', hmem'⟩ := myrealloc_placed (L := L) hinv' hagree.live hsize ho'
  have hreads : ∀ i, 32 * b.count ≤ i → i < size.toNat →
      InFree L memx a.dev (addrOf L memx b + i) ∨ InTable L T memx (addrOf L memx b + i) := by
    rcases hown with h0 | hno | hreads
    · exact absurd h0 hsize
    · exact absurd ho.1 (hno o)
    · exact hreads
  refine ⟨hptr'.trans hptr.symm, fun i hi => ?_⟩
  rw [hptr, hmem, hmem', mymemcpy_apply, mymemcpy_apply, if_pos (by omega), if_pos (by omega),
    Nat.add_sub_cancel_left]
  have hle := copied_le (L.membase memx + 32 * o) (addrOf L memx b) i
  generalize copied (L.membase memx + 32 * o) (addrOf L memx b) i = j at hle
  by_cases hj : j < 32 * b.count
  · exact hagree.block _ ⟨by omega, by omega⟩
  · rcases hreads j (by omega) (by omega) with hfree | htab
    · exact hagree.free _ hfree
    · exact hagree.storage _ htab

/-- **Necessary**: a byte behind the old block that is neither free nor the table's can be changed
by a legal store, and the caller sees the change. -/
theorem readsOwn_of_noLeak (h : Reachable L T memx a) (hb : b ∈ a.live)
    (hno : NoLeak L T memx a b size) : ReadsOwn L T memx a b size := by
  obtain ⟨s₀, hinv⟩ := h.inv
  by_cases hroom : size = 0 ∨
      ∀ o, ¬ FreeRun (a.dev.memmap memx) (memtblsize memx) (nmembOf memx size) o
  · rcases hroom with h0 | hnone
    · exact Or.inl h0
    · exact Or.inr (Or.inl hnone)
  · refine Or.inr (Or.inr fun i hge hi => ?_)
    have hsize : size ≠ 0 := fun h0 => hroom (Or.inl h0)
    have hlaw := myMemMalloc_placement L memx size a.dev hinv.ready
    obtain ⟨o, ho, -⟩ := hlaw.placed fun hfail => hroom (hlaw.fails_iff.mp hfail)
    by_contra hforeign
    obtain ⟨hnf, hnt⟩ := not_or.mp hforeign
    -- one store at the offending byte
    have hlegal : HeapLegal L T memx a (.store (addrOf L memx b + i)
        (a.dev.mem (addrOf L memx b + i) + 1)) := by
      by_cases hpool : InPool L memx (addrOf L memx b + i)
      · exact Or.inl (inBlock_of_not_free hinv hpool hnf)
      · exact Or.inr ⟨hpool, hnt⟩
    have hreach := h.step hlegal
    obtain ⟨s₁, hinv'⟩ := hreach.inv
    have hkeep : ∀ addr, addr ≠ addrOf L memx b + i →
        (heapStep L memx a (.store (addrOf L memx b + i)
          (a.dev.mem (addrOf L memx b + i) + 1))).dev.mem addr = a.dev.mem addr :=
      fun addr hne => Function.update_of_ne hne _ _
    obtain ⟨hptr, hmem⟩ := myrealloc_placed (L := L) hinv hb hsize ho
    obtain ⟨-, hmem'⟩ := myrealloc_placed (L := L) hinv' hb hsize ho
    have hsame := (hno (by rw [hptr]; exact addr_ne_null o) _ hreach
      { live := hb
        table := fun _ _ => rfl
        block := fun addr haddr => hkeep addr (by unfold InBlock at haddr; omega)
        free := fun addr haddr => hkeep addr fun he => hnf (he ▸ haddr)
        storage := fun addr haddr => hkeep addr fun he => hnt (he ▸ haddr) }).2 i hi
    rw [hptr, hmem, hmem', mymemcpy_apply, mymemcpy_apply, if_pos (by omega), if_pos (by omega),
      Nat.add_sub_cancel_left, copied_foreign ho.1 hi hnf] at hsame
    simp only [heapStep, Function.update_self] at hsame
    exact absurd hsame (by simp)

/-- **What `myrealloc` shows its caller**: in every reachable state, for every live block and every
size, the returned bytes depend on nothing but the block, the free area and the table iff no room is
found or the bytes that the copy reads behind the old block all lie in free entries or in the
table. -/
theorem myrealloc_noLeak_iff (L : Layout) (T : Tables L) (memx : Bank) {a : Alloc}
    (h : Reachable L T memx a) {b : Block} (hb : b ∈ a.live) (size : UInt32) :
    NoLeak L T memx a b size ↔ ReadsOwn L T memx a b size := by
  obtain ⟨s₀, hinv⟩ := h.inv
  exact ⟨readsOwn_of_noLeak h hb, noLeak_of_readsOwn hinv hb⟩

/-- The lower block again, after the upper one has been freed. -/
def lowerBlock : Alloc :=
  heapStep iramLayout .sramin twoBlocks (.call (.free (0x20000000 + 32 * 959)))

/-- Growing into a free entry: the copy reads the old block and the entry above it. -/
theorem myrealloc_noLeak_lowerBlock :
    (myrealloc iramLayout .sramin (0x20000000 + 32 * 958) 64 lowerBlock.dev).1 ≠ NULL ∧
      NoLeak iramLayout iramTables .sramin lowerBlock ⟨958, 1⟩ 64 := by
  have hlive : (⟨958, 1⟩ : Block) ∈ lowerBlock.live := by decide +kernel
  have hreach : Reachable iramLayout iramTables .sramin lowerBlock :=
    twoBlocks_reachable.step (Or.inr ⟨⟨959, 1⟩, by rw [twoBlocks_live]; simp, rfl⟩)
  have hfree : lowerBlock.dev.memmap .sramin 959 = 0 := by decide +kernel
  refine ⟨by decide +kernel,
    (myrealloc_noLeak_iff iramLayout iramTables .sramin hreach hlive 64).mpr ?_⟩
  refine Or.inr (Or.inr fun i hge hi => Or.inl ⟨?_, ?_⟩)
  · show 0x20000000 ≤ 0x20000000 + 32 * 958 + i ∧ 0x20000000 + 32 * 958 + i < 0x20000000 + 30 * 1024
    change i < 64 at hi
    omega
  · show lowerBlock.dev.memmap .sramin ((0x20000000 + 32 * 958 + i - 0x20000000) / 32) = 0
    change 32 * 1 ≤ i at hge
    change i < 64 at hi
    rw [show (0x20000000 + 32 * 958 + i - 0x20000000) / 32 = 959 by omega]
    exact hfree

/-- Growing below another live block: the caller gets the first bytes of that block. -/
theorem myrealloc_leaks_neighbour :
    Reachable iramLayout iramTables .sramin twoBlocks ∧ (⟨958, 1⟩ : Block) ∈ twoBlocks.live ∧
      ¬ NoLeak iramLayout iramTables .sramin twoBlocks ⟨958, 1⟩ 64 := by
  have hlive : (⟨958, 1⟩ : Block) ∈ twoBlocks.live := by rw [twoBlocks_live]; simp
  refine ⟨twoBlocks_reachable, hlive, fun hno => ?_⟩
  have hz : ∀ i, 956 ≤ i → i < 956 + 2 → twoBlocks.dev.memmap .sramin i = 0 := by
    intro i hge hlt
    obtain rfl | rfl : i = 956 ∨ i = 957 := by omega
    · decide +kernel
    · decide +kernel
  rcases readsOwn_of_noLeak twoBlocks_reachable hlive hno with h0 | hnone | hreads
  · exact absurd h0 (by decide)
  · exact hnone 956 ⟨by decide, hz⟩
  · rcases hreads 32 (by decide) (by decide) with hfree | htab
    · exact absurd hfree.2 (by decide +kernel)
    · exact absurd htab.1 (by decide)

end Stm32F407.Malloc
