import Stm32F407.Lib.Runs
import Stm32F407.Malloc.Model

/-!
# The allocator keeps a set of live blocks

The management table stores only a repeated length, so what the allocator has handed out is a
ghost: `Alloc` pairs the device with the list of live blocks, and `allocStep` updates it from the
addresses the calls return. A call is `Legal` when `myfree` gets `NULL` or a live address and
`myrealloc` a live one.

* `searchLoop_some`: the downward search returns a run of free entries inside the table.
* `myMemMalloc_spec`, `myfree_spec`: one spec lemma for the allocating and one for the freeing half;
  `mymalloc` and `myrealloc` are read off them.
* `allocInv_step`: every legal call keeps `AllocInv`, so every legal history does
  (`Lib.run_invariant`), and `alloc_run_sound` reads the table, the next calls and the usage off
  it.
-/

namespace Stm32F407.Malloc

open Stm32F407.Lib

/-! ## Sizes and addresses -/

theorem memblksize_eq (b : Bank) : memblksize b = 32 := by cases b <;> rfl

theorem memsize_eq (b : Bank) : memsize b = 32 * memtblsize b := by cases b <;> rfl

theorem memtblsize_lt (b : Bank) : memtblsize b < 2 ^ 16 := by cases b <;> decide

theorem memtblsize_pos (b : Bank) : 0 < memtblsize b := by cases b <;> decide

theorem Layout.membase_pos (L : Layout) (b : Bank) : 0 < L.membase b := by
  cases b with
  | sramin => have := L.sramin_ge; omega
  | sramex => rw [L.sramex_at]; decide
  | sramccm => rw [L.sramccm_at]; decide

theorem Layout.membase_lt (L : Layout) (b : Bank) : L.membase b + memsize b < 2 ^ 32 := by
  cases b with
  | sramin => have := L.sramin_le; omega
  | sramex => rw [L.sramex_at]; decide
  | sramccm => rw [L.sramccm_at]; decide

/-- The block count is the size divided by 32, rounded up. -/
theorem nmembOf_eq (b : Bank) (size : UInt32) : nmembOf b size = (size.toNat + 31) / 32 := by
  unfold nmembOf
  rw [memblksize_eq]
  split <;> omega

theorem nmembOf_pos (b : Bank) {size : UInt32} (h : size ≠ 0) : 0 < nmembOf b size := by
  have : size.toNat ≠ 0 := fun h0 => h (UInt32.toNat_inj.mp h0)
  rw [nmembOf_eq]
  omega

/-! ## The loops -/

/-- The usage loop counts the nonzero entries. -/
theorem usedLoop_eq (map : Nat → Nat) :
    ∀ n, usedLoop map n = ((Finset.range n).filter fun i => map i ≠ 0).card
  | 0 => rfl
  | n + 1 => by
    rw [usedLoop, usedLoop_eq map n, Finset.range_add_one, Finset.filter_insert]
    split
    · rw [Finset.card_insert_of_notMem (by simp)]
    · rfl

theorem usedLoop_le (map : Nat → Nat) (n : Nat) : usedLoop map n ≤ n := by
  rw [usedLoop_eq]
  exact (Finset.card_filter_le _ _).trans (le_of_eq (Finset.card_range n))

/-- **The search is sound**: with the `cmemb` entries above `k` already seen free, the entry it
stops at begins a run of `nmemb` free entries that ends where those do. -/
theorem searchLoop_some {map : Nat → Nat} {nmemb : Nat} :
    ∀ {k cmemb offset : Nat}, (∀ i, k ≤ i → i < k + cmemb → map i = 0) →
      searchLoop map nmemb k cmemb = some offset →
      offset + nmemb ≤ k + cmemb ∧ ∀ i, offset ≤ i → i < offset + nmemb → map i = 0
  | 0, _, _, _, h => by simp [searchLoop] at h
  | k + 1, cmemb, offset, hz, h => by
    -- the free run after visiting entry `k`
    have hrun : ∀ i, k ≤ i → i < k + (if map k = 0 then cmemb + 1 else 0) → map i = 0 := by
      intro i hk hi
      split at hi
      · rename_i h0
        rcases Nat.eq_or_lt_of_le hk with rfl | hlt
        · exact h0
        · exact hz i hlt (by omega)
      · omega
    simp only [searchLoop] at h
    by_cases hc : (if map k = 0 then cmemb + 1 else 0) = nmemb
    · rw [if_pos hc] at h
      obtain rfl := Option.some.inj h
      rw [hc] at hrun
      refine ⟨?_, hrun⟩
      rw [← hc]
      split <;> omega
    · rw [if_neg hc] at h
      obtain ⟨h1, h2⟩ := searchLoop_some hrun h
      refine ⟨?_, h2⟩
      split at h1 <;> omega

/-! ## One spec for each half -/

variable {L : Layout} {memx : Bank} {s : MallcoDev}

/-- What `my_mem_malloc` does on a ready bank: nothing, or it paints a free run of the table. -/
theorem myMemMalloc_spec (hr : s.memrdy memx = true) (size : UInt32) :
    myMemMalloc L memx size s = (0xFFFFFFFF, s) ∨
    ∃ offset, offset + nmembOf memx size ≤ memtblsize memx ∧ 0 < nmembOf memx size ∧
      (∀ i, offset ≤ i → i < offset + nmembOf memx size → s.memmap memx i = 0) ∧
      myMemMalloc L memx size s = (32 * offset, { s with
        memmap := Function.update s.memmap memx
          (paint (s.memmap memx) ⟨offset, nmembOf memx size⟩ (nmembOf memx size)) }) := by
  unfold myMemMalloc
  simp only [hr, if_true]
  by_cases h0 : size = 0
  · rw [if_pos h0]
    exact Or.inl rfl
  · rw [if_neg h0]
    cases hf : searchLoop (s.memmap memx) (nmembOf memx size) (memtblsize memx) 0 with
    | none => exact Or.inl rfl
    | some offset =>
      obtain ⟨hin, hz⟩ := searchLoop_some (by omega) hf
      have hpos := nmembOf_pos memx h0
      have hlt := memtblsize_lt memx
      refine Or.inr ⟨offset, hin, hpos, hz, ?_⟩
      simp only
      rw [fill_eq_paint, Nat.mod_eq_of_lt (by omega), memblksize_eq, Nat.mul_comm]

/-- `mymalloc` on a ready bank: `NULL` and nothing changed, or the address of a new run. -/
theorem mymalloc_spec (hr : s.memrdy memx = true) (size : UInt32) :
    mymalloc L memx size s = (NULL, s) ∨
    ∃ offset, offset + nmembOf memx size ≤ memtblsize memx ∧ 0 < nmembOf memx size ∧
      (∀ i, offset ≤ i → i < offset + nmembOf memx size → s.memmap memx i = 0) ∧
      mymalloc L memx size s = (L.membase memx + 32 * offset, { s with
        memmap := Function.update s.memmap memx
          (paint (s.memmap memx) ⟨offset, nmembOf memx size⟩ (nmembOf memx size)) }) := by
  unfold mymalloc
  rcases myMemMalloc_spec hr size with h | ⟨offset, hin, hpos, hz, h⟩
  · rw [h]
    exact Or.inl rfl
  · have h1 := L.membase_lt memx
    have h2 := memsize_eq memx
    have h3 := memtblsize_lt memx
    refine Or.inr ⟨offset, hin, hpos, hz, ?_⟩
    simp only [h]
    rw [if_neg (by omega), Nat.mod_eq_of_lt (by omega)]

/-- The offset `myfree` computes from an address of the pool. -/
theorem offset_of_addr (L : Layout) {memx : Bank} {i : Nat} (hi : i < memtblsize memx) :
    (L.membase memx + 32 * i + 2 ^ 32 - L.membase memx) % 2 ^ 32 = 32 * i := by
  have h1 := L.membase_lt memx
  have h2 := memsize_eq memx
  omega

/-- What `myfree` does with the address of a recorded block: it clears that block's entries. -/
theorem myfree_spec (hr : s.memrdy memx = true) {B : List Block}
    (hB : Records (memtblsize memx) (s.memmap memx) B) {b : Block} (hb : b ∈ B) :
    myfree L memx (L.membase memx + 32 * b.start) s = { s with
      memmap := Function.update s.memmap memx (paint (s.memmap memx) b 0) } := by
  have hpos := hB.pos b hb
  have hin := hB.inside b hb
  have hbase := L.membase_pos memx
  have hcnt : s.memmap memx b.start = b.count := hB.owned b hb b.start ⟨le_refl _, by omega⟩
  unfold myfree
  rw [if_neg (by unfold NULL; omega), offset_of_addr L (by omega)]
  unfold myMemFree
  rw [if_neg (by simp [hr]), if_pos (by rw [memsize_eq]; omega)]
  simp only
  rw [memblksize_eq, Nat.mul_div_cancel_left _ (by decide), hcnt, fill_eq_paint]

/-! ## Histories with their live blocks -/

/-- The calls of a history. -/
inductive AllocOp where
  | malloc (size : UInt32)
  | realloc (ptr : Nat) (size : UInt32)
  | free (ptr : Nat)

/-- The device together with the blocks handed out and not given back. -/
structure Alloc where
  dev : MallcoDev
  live : List Block

variable (L memx)

/-- The address of a block. -/
def addrOf (b : Block) : Nat := L.membase memx + 32 * b.start

/-- `ptr` is the address of a live block. -/
def LiveAt (a : Alloc) (ptr : Nat) : Prop := ∃ b ∈ a.live, addrOf L memx b = ptr

/-- The block a call that returned `ptr` for `size` bytes has handed out. -/
def blockOf (ptr : Nat) (size : UInt32) : Block :=
  ⟨(ptr - L.membase memx) / 32, (size.toNat + 31) / 32⟩

/-- The live blocks without the one at `ptr`. -/
def released (live : List Block) (ptr : Nat) : List Block :=
  live.eraseP fun b => addrOf L memx b == ptr

/-- One call, with the live blocks read off the address it returns. -/
def allocStep (a : Alloc) : AllocOp → Alloc
  | .malloc size =>
    let r := mymalloc L memx size a.dev
    ⟨r.2, if r.1 = NULL then a.live else blockOf L memx r.1 size :: a.live⟩
  | .realloc ptr size =>
    let r := myrealloc L memx ptr size a.dev
    ⟨r.2, if r.1 = NULL then a.live
      else blockOf L memx r.1 size :: released L memx a.live ptr⟩
  | .free ptr => ⟨myfree L memx ptr a.dev, released L memx a.live ptr⟩

/-- `myfree` may be given `NULL` or a live address, `myrealloc` a live one. -/
def Legal (a : Alloc) : AllocOp → Prop
  | .malloc _ => True
  | .realloc ptr _ => LiveAt L memx a ptr
  | .free ptr => ptr = NULL ∨ LiveAt L memx a ptr

/-- The state right after `my_mem_init(memx)`. -/
def allocInit (s : MallcoDev) : Alloc := ⟨myMemInit L memx s, []⟩

/-- The bank is ready, its table records the live blocks, and the other tables are as they were
in `s₀`. -/
structure AllocInv (s₀ : MallcoDev) (a : Alloc) : Prop where
  ready : a.dev.memrdy memx = true
  records : Records (memtblsize memx) (a.dev.memmap memx) a.live
  frame : ∀ b, b ≠ memx → a.dev.memmap b = s₀.memmap b

variable {L memx}

theorem allocInv_init (s₀ : MallcoDev) : AllocInv memx s₀ (allocInit L memx s₀) where
  ready := Function.update_self _ _ _
  records := records_nil fun i hi => by
    show Function.update s₀.memmap memx _ memx i = 0
    rw [Function.update_self, fill_eq_paint, paint_of_has (by rw [Block.has_mk]; omega)]
  frame b hb := Function.update_of_ne hb _ _

/-- The block handed out at the address of index `offset`. -/
theorem blockOf_addr (offset : Nat) (size : UInt32) :
    blockOf L memx (L.membase memx + 32 * offset) size = ⟨offset, nmembOf memx size⟩ := by
  unfold blockOf
  rw [nmembOf_eq, Nat.add_sub_cancel_left, Nat.mul_div_cancel_left _ (by decide)]

theorem addr_ne_null (offset : Nat) : L.membase memx + 32 * offset ≠ NULL := by
  have := L.membase_pos memx
  unfold NULL
  omega

/-- Releasing the address of a live block takes that block, and no other, off the list. -/
theorem perm_released {n : Nat} {f : Nat → Nat} {live : List Block} (h : Records n f live)
    {b : Block} (hb : b ∈ live) : live.Perm (b :: released L memx live (addrOf L memx b)) := by
  obtain ⟨c, l₁, l₂, -, hc, hl, he⟩ :=
    List.exists_of_eraseP (p := fun c => addrOf L memx c == addrOf L memx b) hb (by simp)
  have hcb : c = b := by
    refine h.eq_of_start (by rw [hl]; simp) hb ?_
    have : addrOf L memx c = addrOf L memx b := by simpa using hc
    unfold addrOf at this
    omega
  unfold released
  rw [he]
  subst hcb
  rw [hl]
  exact List.perm_middle

/-- No block is at `NULL`, so freeing `NULL` releases nothing. -/
theorem released_null (live : List Block) : released L memx live NULL = live :=
  List.eraseP_of_forall_not fun b _ => by simpa [addrOf] using addr_ne_null b.start

/-- The table after a block has been given back records the released list. -/
theorem records_released {n : Nat} {f : Nat → Nat} {live : List Block} (h : Records n f live)
    {b : Block} (hb : b ∈ live) :
    Records n (paint f b 0) (released L memx live (addrOf L memx b)) :=
  (h.perm (perm_released h hb)).tail

/-! ## Every legal call keeps the invariant -/

variable {s₀ : MallcoDev} {a : Alloc}

/-- A bank whose table is replaced by one that records `live`, the other tables kept. -/
theorem AllocInv.update (h : AllocInv memx s₀ a) (mem : Nat → UInt8) {map : Nat → Nat}
    {live : List Block} (hrec : Records (memtblsize memx) map live) :
    AllocInv memx s₀
      ⟨{ a.dev with memmap := Function.update a.dev.memmap memx map, mem := mem }, live⟩ where
  ready := h.ready
  records := by
    show Records _ (Function.update a.dev.memmap memx map memx) live
    rw [Function.update_self]
    exact hrec
  frame b hb := by
    show Function.update a.dev.memmap memx map b = s₀.memmap b
    rw [Function.update_of_ne hb]
    exact h.frame b hb

/-- A fresh run of the table, painted with its length, is one more live block. -/
theorem AllocInv.insert (h : AllocInv memx s₀ a) {offset n : Nat}
    (hin : offset + n ≤ memtblsize memx) (hpos : 0 < n)
    (hz : ∀ i, offset ≤ i → i < offset + n → a.dev.memmap memx i = 0) :
    Records (memtblsize memx) (paint (a.dev.memmap memx) ⟨offset, n⟩ n)
      (⟨offset, n⟩ :: a.live) :=
  h.records.insert (b := ⟨offset, n⟩) hpos hin fun i hi => hz i hi.1 hi.2

theorem allocInv_malloc (h : AllocInv memx s₀ a) (size : UInt32) :
    AllocInv memx s₀ (allocStep L memx a (.malloc size)) := by
  rw [allocStep]
  rcases mymalloc_spec (L := L) h.ready size with hm | ⟨offset, hin, hpos, hz, hm⟩
  · simp only [hm, if_true]
    exact h
  · simp only [hm]
    rw [if_neg (addr_ne_null offset), blockOf_addr]
    exact h.update _ (h.insert hin hpos hz)

theorem allocInv_free (h : AllocInv memx s₀ a) {ptr : Nat}
    (hl : ptr = NULL ∨ LiveAt L memx a ptr) :
    AllocInv memx s₀ (allocStep L memx a (.free ptr)) := by
  rw [allocStep]
  rcases hl with rfl | ⟨b, hb, rfl⟩
  · rw [released_null]
    exact h
  · rw [show myfree L memx (addrOf L memx b) a.dev = _ from myfree_spec h.ready h.records hb]
    exact h.update _ (records_released h.records hb)

/-- `myrealloc` of a live address once `my_mem_malloc` has found a run: the device `mymalloc`
leaves, with the bytes copied and the old block freed. -/
theorem myrealloc_of_run (h : AllocInv memx s₀ a) {b : Block} (hb : b ∈ a.live) {size : UInt32}
    {offset : Nat} (hin : offset + nmembOf memx size ≤ memtblsize memx)
    (hpos : 0 < nmembOf memx size)
    (hz : ∀ i, offset ≤ i → i < offset + nmembOf memx size → a.dev.memmap memx i = 0)
    (hm : myMemMalloc L memx size a.dev = (32 * offset, { a.dev with
      memmap := Function.update a.dev.memmap memx
        (paint (a.dev.memmap memx) ⟨offset, nmembOf memx size⟩ (nmembOf memx size)) })) :
    myrealloc L memx (addrOf L memx b) size a.dev =
      (L.membase memx + 32 * offset, { a.dev with
        memmap := Function.update a.dev.memmap memx
          (paint (paint (a.dev.memmap memx) ⟨offset, nmembOf memx size⟩ (nmembOf memx size)) b 0)
        mem := mymemcpy a.dev.mem (L.membase memx + 32 * offset) (addrOf L memx b)
          size.toNat }) := by
  have h1 := L.membase_lt memx
  have h2 := memsize_eq memx
  have h3 := memtblsize_lt memx
  simp only [myrealloc, hm]
  rw [if_neg (by omega), Nat.mod_eq_of_lt (by omega)]
  -- the free runs on the device the allocation and the copy have left
  have hnew := h.update (mymemcpy a.dev.mem (L.membase memx + 32 * offset)
    (addrOf L memx b) size.toNat) (h.insert hin hpos hz)
  have hfree := myfree_spec (L := L) hnew.ready hnew.records (List.mem_cons_of_mem _ hb)
  rw [show addrOf L memx b = L.membase memx + 32 * b.start from rfl] at hfree ⊢
  rw [hfree]
  simp only [Function.update_self, Function.update_idem]

/-- `myrealloc` of a live address: `NULL` and nothing changed, or the device of
`myrealloc_of_run`. -/
theorem myrealloc_spec (h : AllocInv memx s₀ a) {b : Block} (hb : b ∈ a.live) (size : UInt32) :
    myrealloc L memx (addrOf L memx b) size a.dev = (NULL, a.dev) ∨
    ∃ offset, offset + nmembOf memx size ≤ memtblsize memx ∧ 0 < nmembOf memx size ∧
      (∀ i, offset ≤ i → i < offset + nmembOf memx size → a.dev.memmap memx i = 0) ∧
      myrealloc L memx (addrOf L memx b) size a.dev =
        (L.membase memx + 32 * offset, { a.dev with
          memmap := Function.update a.dev.memmap memx
            (paint (paint (a.dev.memmap memx) ⟨offset, nmembOf memx size⟩ (nmembOf memx size)) b 0)
          mem := mymemcpy a.dev.mem (L.membase memx + 32 * offset) (addrOf L memx b)
            size.toNat }) := by
  rcases myMemMalloc_spec (L := L) h.ready size with hm | ⟨offset, hin, hpos, hz, hm⟩
  · left
    simp only [myrealloc, hm, if_true]
  · exact Or.inr ⟨offset, hin, hpos, hz, myrealloc_of_run h hb hin hpos hz hm⟩

theorem allocInv_realloc (h : AllocInv memx s₀ a) {ptr : Nat} (hl : LiveAt L memx a ptr)
    (size : UInt32) : AllocInv memx s₀ (allocStep L memx a (.realloc ptr size)) := by
  obtain ⟨b, hb, rfl⟩ := hl
  rw [allocStep]
  rcases myrealloc_spec (L := L) h hb size with hm | ⟨offset, hin, hpos, hz, hm⟩
  · simp only [hm, if_true]
    exact h
  · have hins := h.insert hin hpos hz
    simp only [hm]
    rw [if_neg (addr_ne_null offset), blockOf_addr]
    refine h.update _ ?_
    -- the new block is listed first, so release the old one behind it
    have hp : (⟨offset, nmembOf memx size⟩ :: a.live).Perm
        (b :: ⟨offset, nmembOf memx size⟩ :: released L memx a.live (addrOf L memx b)) :=
      ((perm_released h.records hb).cons _).trans (List.Perm.swap _ _ _)
    exact (hins.perm hp).tail

/-- **Every legal call keeps the invariant.** -/
theorem allocInv_step (a : Alloc) (op : AllocOp) (h : AllocInv memx s₀ a)
    (hl : Legal L memx a op) : AllocInv memx s₀ (allocStep L memx a op) := by
  cases op with
  | malloc size => exact allocInv_malloc h size
  | realloc ptr size => exact allocInv_realloc h hl size
  | free ptr => exact allocInv_free h hl

/-! ## Whole histories -/

variable (L memx)

/-- A non-`NULL` result of `mymalloc` is the address of a new block of `⌈size / 32⌉` entries: its
bytes lie in the pool and meet no live block. -/
def MallocLaw (a : Alloc) : Prop :=
  ∀ size : UInt32, (mymalloc L memx size a.dev).1 ≠ NULL →
    ∃ b : Block, (mymalloc L memx size a.dev).1 = addrOf L memx b ∧
      b.count = (size.toNat + 31) / 32 ∧ b.start + b.count ≤ memtblsize memx ∧
      (allocStep L memx a (.malloc size)).live = b :: a.live ∧
      addrOf L memx b + size.toNat ≤ L.membase memx + memsize memx ∧
      ∀ c ∈ a.live, addrOf L memx b + size.toNat ≤ addrOf L memx c ∨
        addrOf L memx c + 32 * c.count ≤ addrOf L memx b

/-- `myfree` of a live address clears the entries of the block that starts there, changes no other
entry, and takes that block alone off the live list. -/
def FreeLaw (a : Alloc) : Prop :=
  ∀ b ∈ a.live,
    (myfree L memx (addrOf L memx b) a.dev).memmap memx = paint (a.dev.memmap memx) b 0 ∧
    a.live.Perm (b :: (allocStep L memx a (.free (addrOf L memx b))).live)

variable {L memx}

theorem mallocLaw_of_inv (h : AllocInv memx s₀ a) : MallocLaw L memx a := by
  intro size hne
  rcases mymalloc_spec (L := L) h.ready size with hm | ⟨offset, hin, hpos, hz, hm⟩
  · rw [hm] at hne
    exact absurd rfl hne
  · have hsz := memsize_eq memx
    have hceil := nmembOf_eq memx size
    have hlive : (allocStep L memx a (.malloc size)).live =
        ⟨offset, nmembOf memx size⟩ :: a.live := by
      simp only [allocStep, hm]
      rw [if_neg (addr_ne_null offset), blockOf_addr]
    refine ⟨⟨offset, nmembOf memx size⟩, by rw [hm]; rfl, hceil, hin, hlive, ?_, fun c hc => ?_⟩
    · unfold addrOf
      simp only
      omega
    · have hap := (List.pairwise_cons.mp (h.insert hin hpos hz).apart).1 c hc
      unfold Block.Apart at hap
      unfold addrOf
      simp only at hap ⊢
      omega

theorem freeLaw_of_inv (h : AllocInv memx s₀ a) : FreeLaw L memx a := by
  intro b hb
  refine ⟨?_, perm_released h.records hb⟩
  rw [show myfree L memx (addrOf L memx b) a.dev = _ from myfree_spec h.ready h.records hb]
  exact Function.update_self _ _ _

/-- The usage is the share of entries owned by live blocks, rounded down. -/
theorem myMemPerused_of_inv (h : AllocInv memx s₀ a) :
    myMemPerused memx a.dev = 100 * (a.live.map Block.count).sum / memtblsize memx := by
  have hle := usedLoop_le (a.dev.memmap memx) (memtblsize memx)
  have hpos := memtblsize_pos memx
  have hused : usedLoop (a.dev.memmap memx) (memtblsize memx) = (a.live.map Block.count).sum := by
    rw [usedLoop_eq, h.records.used]
  unfold myMemPerused
  rw [hused] at hle ⊢
  have h100 : (a.live.map Block.count).sum * 100 / memtblsize memx ≤ 100 :=
    Nat.div_le_of_le_mul (by omega)
  rw [Nat.mod_eq_of_lt (by omega), Nat.mul_comm]

/-- **The allocator keeps a set of live blocks.** After every legal history from `my_mem_init` the
table of the bank records the live blocks, the tables of the other banks are as they were, the
usage is the share of owned entries, and the next `mymalloc` or `myfree` obeys its law. -/
theorem alloc_run_sound (L : Layout) (memx : Bank) (s₀ : MallcoDev) (ops : List AllocOp)
    (hlegal : AllSteps (allocStep L memx) (Legal L memx) (allocInit L memx s₀) ops) :
    let a := run (allocStep L memx) (allocInit L memx s₀) ops
    Records (memtblsize memx) (a.dev.memmap memx) a.live ∧
      (∀ b, b ≠ memx → a.dev.memmap b = s₀.memmap b) ∧
      myMemPerused memx a.dev = 100 * (a.live.map Block.count).sum / memtblsize memx ∧
      MallocLaw L memx a ∧ FreeLaw L memx a := by
  have h : AllocInv memx s₀ (run (allocStep L memx) (allocInit L memx s₀) ops) :=
    run_invariant (fun a op hP hO => allocInv_step a op hP hO) (allocInv_init s₀) hlegal
  exact ⟨h.records, h.frame, myMemPerused_of_inv h, mallocLaw_of_inv h, freeLaw_of_inv h⟩

/-- The internal pool at the first address of the internal RAM. -/
def iramLayout : Layout where
  membase
    | .sramin => 0x20000000
    | .sramex => 0x68000000
    | .sramccm => 0x10000000
  sramex_at := rfl
  sramccm_at := rfl
  sramin_ge := by decide
  sramin_le := by decide

/-- A device before any bank has been initialised. -/
def blankDev : MallcoDev := ⟨fun _ _ => 0, fun _ => false, fun _ => 0⟩

/-- Two allocations, a growing reallocation of the first and a free of the second. -/
theorem alloc_run_sound_history :
    let ops := [.malloc 40, .malloc 1, .realloc (0x20000000 + 32 * 958) 100,
      .free (0x20000000 + 32 * 957)]
    let a := run (allocStep iramLayout .sramin) (allocInit iramLayout .sramin blankDev) ops
    a.live = [⟨953, 4⟩] ∧ Records (memtblsize .sramin) (a.dev.memmap .sramin) a.live := by
  refine ⟨by decide +kernel, (alloc_run_sound iramLayout .sramin blankDev _ ?_).1⟩
  refine ⟨trivial, trivial, ⟨⟨958, 2⟩, by decide +kernel, rfl⟩,
    Or.inr ⟨⟨957, 1⟩, by decide +kernel, rfl⟩, trivial⟩

end Stm32F407.Malloc
