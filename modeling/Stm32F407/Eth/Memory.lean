import Stm32F407.Eth.Model
import Stm32F407.Malloc.Realloc

/-!
# The memory of the Ethernet driver

`ETH_Mem_Malloc` takes the two descriptor tables and the two buffer areas from the internal pool and
`ETH_Mem_Free` gives them back (`lan8720.c`). The four requests are all made before any result is
looked at, so any subset of them may have failed when the roll-back starts; it frees in the order of
the requests and passes `NULL` for those that failed.

* `grant` / `giveBack`: one `mymalloc` and one `myfree` on the invariant of the allocator, with the
  block as an `Option`. A failed request is a request for no block.
* `ethMemMalloc_allOrNothing`: four blocks beside all live ones, or the table as it was.
-/

namespace Stm32F407.Eth

open Stm32F407.Lib Stm32F407.Malloc

/-! ## Requests that may fail -/

section

variable {L : Layout} {memx : Bank} {s₀ s : MallcoDev} {live : List Block}

/-- The address of a block that may not be there. -/
def ptrOf (L : Layout) (memx : Bank) : Option Block → Nat
  | none => NULL
  | some b => addrOf L memx b

theorem ptrOf_eq_null_iff (o : Option Block) : ptrOf L memx o = NULL ↔ o = none := by
  cases o with
  | none => exact iff_of_true rfl rfl
  | some b => exact iff_of_false (addr_ne_null b.start) (by simp)

/-- **A request**: a new live block of the requested size, or none. -/
theorem grant (h : AllocInv memx s₀ ⟨s, live⟩) (size : UInt32) :
    ∃ o : Option Block, (mymalloc L memx size s).1 = ptrOf L memx o ∧
      AllocInv memx s₀ ⟨(mymalloc L memx size s).2, o.toList ++ live⟩ ∧
      ∀ c, o = some c → c.count = (size.toNat + 31) / 32 := by
  have hready : s.memrdy memx = true := h.ready
  rcases mymalloc_spec (L := L) hready size with hm | ⟨offset, hin, hpos, hz, hm⟩
  · refine ⟨none, by rw [hm]; rfl, by rw [hm]; exact h, ?_⟩
    rintro c ⟨⟩
  · refine ⟨some ⟨offset, nmembOf memx size⟩, by rw [hm]; rfl, ?_, ?_⟩
    · rw [hm]
      exact h.update s.mem (h.insert hin hpos hz)
    · rintro c ⟨⟩
      exact nmembOf_eq memx size

/-- **A return**: the block given back is off the list of live blocks, wherever it stands. -/
theorem giveBack {o : Option Block} {rest : List Block} (h : AllocInv memx s₀ ⟨s, live⟩)
    (hp : live.Perm (o.toList ++ rest)) :
    AllocInv memx s₀ ⟨myfree L memx (ptrOf L memx o) s, rest⟩ := by
  have hrec : Records (memtblsize memx) (s.memmap memx) (o.toList ++ rest) := h.records.perm hp
  cases o with
  | none => exact ⟨h.ready, hrec, h.frame⟩
  | some b =>
    have hb : b ∈ (some b).toList ++ rest := List.mem_cons_self
    have hfree : myfree L memx (ptrOf L memx (some b)) s = _ := myfree_spec (L := L) h.ready hrec hb
    rw [hfree]
    exact h.update s.mem hrec.tail

end

/-! ## `ETH_Mem_Malloc` and `ETH_Mem_Free` -/

/-- `sizeof(ETH_DMADESCTypeDef)`: eight words, since `USE_ENHANCED_DMA_DESCRIPTORS` is defined. -/
def sizeofDmaDesc : Nat := 32

/-- The four pointers of the driver. -/
structure EthMem where
  dmaRxDscrTab : Nat
  dmaTxDscrTab : Nat
  rxBuff : Nat
  txBuff : Nat

/-- `ETH_Mem_Free`. -/
def ethMemFree (L : Layout) (p : EthMem) (s : MallcoDev) : MallcoDev :=
  let s := myfree L .sramin p.dmaRxDscrTab s
  let s := myfree L .sramin p.dmaTxDscrTab s
  let s := myfree L .sramin p.rxBuff s
  myfree L .sramin p.txBuff s

/-- The bytes asked for, in the order of the calls. -/
def rxDescBytes : UInt32 := UInt32.ofNat (ethRxBufNb * sizeofDmaDesc)
def txDescBytes : UInt32 := UInt32.ofNat (ethTxBufNb * sizeofDmaDesc)
def rxBuffBytes : UInt32 := UInt32.ofNat (ethBufSize * ethRxBufNb)
def txBuffBytes : UInt32 := UInt32.ofNat (ethBufSize * ethTxBufNb)

/-- `ETH_Mem_Malloc`: the return value, the four pointers and the device. -/
def ethMemMalloc (L : Layout) (s : MallcoDev) : Nat × EthMem × MallcoDev :=
  let r₁ := mymalloc L .sramin rxDescBytes s
  let r₂ := mymalloc L .sramin txDescBytes r₁.2
  let r₃ := mymalloc L .sramin rxBuffBytes r₂.2
  let r₄ := mymalloc L .sramin txBuffBytes r₃.2
  let p : EthMem := ⟨r₁.1, r₂.1, r₃.1, r₄.1⟩
  if p.dmaRxDscrTab = NULL ∨ p.dmaTxDscrTab = NULL ∨ p.rxBuff = NULL ∨ p.txBuff = NULL then
    (1, p, ethMemFree L p r₄.2)
  else (0, p, r₄.2)

/-- The four calls of `mymalloc` by themselves, each on what the one before it left. -/
def rxDescCall (L : Layout) (s : MallcoDev) : Nat × MallcoDev := mymalloc L .sramin rxDescBytes s
def txDescCall (L : Layout) (s : MallcoDev) : Nat × MallcoDev :=
  mymalloc L .sramin txDescBytes (rxDescCall L s).2
def rxBuffCall (L : Layout) (s : MallcoDev) : Nat × MallcoDev :=
  mymalloc L .sramin rxBuffBytes (txDescCall L s).2
def txBuffCall (L : Layout) (s : MallcoDev) : Nat × MallcoDev :=
  mymalloc L .sramin txBuffBytes (rxBuffCall L s).2

/-- What `ETH_Mem_Malloc` does in state `a`: the four pointers are the results of the four calls of
`mymalloc`, and it returns `0` iff none of these is `NULL`. Then there are four blocks, of at least
the requested sizes, at the four pointers; the table is that of the last call and records them
together with the live blocks, so they are apart from each other and from those. Otherwise it returns
`1` and the table is as it was. -/
structure EthMemLaw (L : Layout) (a : Alloc) : Prop where
  zero_iff : (ethMemMalloc L a.dev).1 = 0 ↔
    (rxDescCall L a.dev).1 ≠ NULL ∧ (txDescCall L a.dev).1 ≠ NULL ∧
      (rxBuffCall L a.dev).1 ≠ NULL ∧ (txBuffCall L a.dev).1 ≠ NULL
  pointers : (ethMemMalloc L a.dev).2.1 = ⟨(rxDescCall L a.dev).1, (txDescCall L a.dev).1,
    (rxBuffCall L a.dev).1, (txBuffCall L a.dev).1⟩
  all : (ethMemMalloc L a.dev).1 = 0 → (ethMemMalloc L a.dev).2.2 = (txBuffCall L a.dev).2 ∧
    ∃ c₁ c₂ c₃ c₄ : Block,
    (ethMemMalloc L a.dev).2.1 = ⟨addrOf L .sramin c₁, addrOf L .sramin c₂, addrOf L .sramin c₃,
      addrOf L .sramin c₄⟩ ∧
    ethRxBufNb * sizeofDmaDesc ≤ 32 * c₁.count ∧ ethTxBufNb * sizeofDmaDesc ≤ 32 * c₂.count ∧
    ethBufSize * ethRxBufNb ≤ 32 * c₃.count ∧ ethBufSize * ethTxBufNb ≤ 32 * c₄.count ∧
    [c₄, c₃, c₂, c₁].Pairwise Block.Apart ∧
    (∀ c ∈ [c₄, c₃, c₂, c₁], ∀ d ∈ a.live, c.Apart d) ∧
    Records (memtblsize .sramin) ((ethMemMalloc L a.dev).2.2.memmap .sramin)
      ([c₄, c₃, c₂, c₁] ++ a.live)
  nothing : (ethMemMalloc L a.dev).1 ≠ 0 → (ethMemMalloc L a.dev).1 = 1 ∧
    ∀ i, i < memtblsize .sramin →
      (ethMemMalloc L a.dev).2.2.memmap .sramin i = a.dev.memmap .sramin i

/-- The roll-back, for any subset of failed requests. -/
theorem ethMemFree_restores {L : Layout} {s₀ s : MallcoDev} {live : List Block}
    {o₁ o₂ o₃ o₄ : Option Block}
    (h : AllocInv .sramin s₀ ⟨s, o₄.toList ++ (o₃.toList ++ (o₂.toList ++ (o₁.toList ++ live)))⟩) :
    AllocInv .sramin s₀ ⟨ethMemFree L ⟨ptrOf L .sramin o₁, ptrOf L .sramin o₂, ptrOf L .sramin o₃,
      ptrOf L .sramin o₄⟩ s, live⟩ := by
  have h₁ : AllocInv .sramin s₀ ⟨myfree L .sramin (ptrOf L .sramin o₁) s,
      o₄.toList ++ (o₃.toList ++ (o₂.toList ++ live))⟩ := by
    refine giveBack h ?_
    simpa only [List.append_assoc] using
      List.perm_append_comm_assoc (o₄.toList ++ o₃.toList ++ o₂.toList) o₁.toList live
  have h₂ : AllocInv .sramin s₀ ⟨myfree L .sramin (ptrOf L .sramin o₂)
      (myfree L .sramin (ptrOf L .sramin o₁) s), o₄.toList ++ (o₃.toList ++ live)⟩ := by
    refine giveBack h₁ ?_
    simpa only [List.append_assoc] using
      List.perm_append_comm_assoc (o₄.toList ++ o₃.toList) o₂.toList live
  exact giveBack (giveBack h₂ (List.perm_append_comm_assoc _ _ _)) (List.Perm.refl _)

/-- The four requests, each answered or not. -/
theorem calls_spec (L : Layout) {s₀ : MallcoDev} {a : Alloc} (h : AllocInv .sramin s₀ a) :
    ∃ (o₁ o₂ o₃ o₄ : Option Block) (s : MallcoDev),
      ((rxDescCall L a.dev).1 = ptrOf L .sramin o₁ ∧ (txDescCall L a.dev).1 = ptrOf L .sramin o₂ ∧
        (rxBuffCall L a.dev).1 = ptrOf L .sramin o₃ ∧
        txBuffCall L a.dev = (ptrOf L .sramin o₄, s)) ∧
      AllocInv .sramin s₀ ⟨s, o₄.toList ++ (o₃.toList ++ (o₂.toList ++ (o₁.toList ++ a.live)))⟩ ∧
      (∀ c, o₁ = some c → c.count = (rxDescBytes.toNat + 31) / 32) ∧
      (∀ c, o₂ = some c → c.count = (txDescBytes.toNat + 31) / 32) ∧
      (∀ c, o₃ = some c → c.count = (rxBuffBytes.toNat + 31) / 32) ∧
      ∀ c, o₄ = some c → c.count = (txBuffBytes.toNat + 31) / 32 := by
  obtain ⟨o₁, hp₁, h₁, hc₁⟩ := grant (L := L) h rxDescBytes
  obtain ⟨o₂, hp₂, h₂, hc₂⟩ := grant (L := L) h₁ txDescBytes
  obtain ⟨o₃, hp₃, h₃, hc₃⟩ := grant (L := L) h₂ rxBuffBytes
  obtain ⟨o₄, hp₄, h₄, hc₄⟩ := grant (L := L) h₃ txBuffBytes
  have hp : (txBuffCall L a.dev).1 = ptrOf L .sramin o₄ := hp₄
  have hs : AllocInv .sramin s₀ ⟨(txBuffCall L a.dev).2,
      o₄.toList ++ (o₃.toList ++ (o₂.toList ++ (o₁.toList ++ a.live)))⟩ := h₄
  generalize txBuffCall L a.dev = r at hp hs ⊢
  obtain ⟨q, s⟩ := r
  obtain rfl : q = ptrOf L .sramin o₄ := hp
  exact ⟨o₁, o₂, o₃, o₄, s, ⟨hp₁, hp₂, hp₃, rfl⟩, hs, hc₁, hc₂, hc₃, hc₄⟩

/-- What is made of the four answers. -/
theorem ethMemMalloc_eq (L : Layout) (s : MallcoDev) :
    ethMemMalloc L s =
      let p : EthMem := ⟨(rxDescCall L s).1, (txDescCall L s).1, (rxBuffCall L s).1,
        (txBuffCall L s).1⟩
      if (rxDescCall L s).1 = NULL ∨ (txDescCall L s).1 = NULL ∨ (rxBuffCall L s).1 = NULL ∨
          (txBuffCall L s).1 = NULL then (1, p, ethMemFree L p (txBuffCall L s).2)
      else (0, p, (txBuffCall L s).2) := by
  unfold ethMemMalloc txBuffCall rxBuffCall txDescCall rxDescCall
  with_reducible rfl

theorem ethMemLaw_of_inv {L : Layout} {s₀ : MallcoDev} {a : Alloc} (h : AllocInv .sramin s₀ a) :
    EthMemLaw L a := by
  obtain ⟨o₁, o₂, o₃, o₄, s, ⟨hp₁, hp₂, hp₃, hp₄⟩, hs, hc₁, hc₂, hc₃, hc₄⟩ := calls_spec L h
  have hm := ethMemMalloc_eq L a.dev
  simp only [hp₁, hp₂, hp₃, hp₄, ptrOf_eq_null_iff] at hm
  by_cases hnone : o₁ = none ∨ o₂ = none ∨ o₃ = none ∨ o₄ = none
  · rw [if_pos hnone] at hm
    have hback := ethMemFree_restores (L := L) hs
    have hone : (ethMemMalloc L a.dev).1 = 1 := by rw [hm]
    refine ⟨?_, by rw [hm, hp₁, hp₂, hp₃, hp₄], fun h0 => absurd h0 (by rw [hone]; decide),
      fun _ => ⟨hone, fun i hi => ?_⟩⟩
    · rw [hm, hp₁, hp₂, hp₃, hp₄]
      simp only [ne_eq, ptrOf_eq_null_iff]
      refine iff_of_false (by decide) ?_
      rintro ⟨hn₁, hn₂, hn₃, hn₄⟩
      rcases hnone with h0 | h0 | h0 | h0
      · exact hn₁ h0
      · exact hn₂ h0
      · exact hn₃ h0
      · exact hn₄ h0
    · rw [hm]
      exact hback.records.entry_eq h.records hi
  · rw [if_neg hnone] at hm
    simp only [not_or, ← ne_eq, Option.ne_none_iff_exists'] at hnone
    obtain ⟨⟨c₁, rfl⟩, ⟨c₂, rfl⟩, ⟨c₃, rfl⟩, ⟨c₄, rfl⟩⟩ := hnone
    have hrec : Records (memtblsize .sramin) (s.memmap .sramin) ([c₄, c₃, c₂, c₁] ++ a.live) :=
      hs.records
    have hapart := List.pairwise_append.mp hrec.apart
    refine ⟨?_, by rw [hm, hp₁, hp₂, hp₃, hp₄], fun _ => ⟨by rw [hm, hp₄], c₁, c₂, c₃, c₄,
      by rw [hm]; rfl, ?_, ?_, ?_, ?_, hapart.1, hapart.2.2, ?_⟩,
      fun hne => absurd (congrArg Prod.fst hm) hne⟩
    · rw [hm, hp₁, hp₂, hp₃, hp₄]
      exact iff_of_true rfl ⟨addr_ne_null _, addr_ne_null _, addr_ne_null _, addr_ne_null _⟩
    · rw [hc₁ c₁ rfl]
      decide
    · rw [hc₂ c₂ rfl]
      decide
    · rw [hc₃ c₃ rfl]
      decide
    · rw [hc₄ c₄ rfl]
      decide
    · rw [hm]
      exact hrec

/-- **`ETH_Mem_Malloc` is all or nothing**, in every reachable state of the internal pool. -/
theorem ethMemMalloc_allOrNothing (L : Layout) (T : Tables L) {a : Alloc}
    (h : Reachable L T .sramin a) : EthMemLaw L a := by
  obtain ⟨s₀, hinv⟩ := h.inv
  exact ethMemLaw_of_inv hinv

/-- A request that fits below the entry `K`, with nothing in use there, is granted as high as it
goes. -/
theorem mymalloc_below {L : Layout} {memx : Bank} {s : MallcoDev} (size : UInt32) {K : Nat}
    (hr : s.memrdy memx = true) (hK : K ≤ memtblsize memx)
    (hz : ∀ i, i < K → s.memmap memx i = 0) (h0 : size ≠ 0) (hn : nmembOf memx size ≤ K) :
    (mymalloc L memx size s).1 ≠ NULL ∧ (mymalloc L memx size s).2.memrdy memx = true ∧
      ∀ i, i < K - nmembOf memx size → (mymalloc L memx size s).2.memmap memx i = 0 := by
  have hrun : FreeRun (s.memmap memx) (memtblsize memx) (nmembOf memx size)
      (K - nmembOf memx size) := ⟨by omega, fun i _ hi => hz i (by omega)⟩
  have hspec := searchLoop_spec (scanned_init (s.memmap memx) (memtblsize memx)
    (nmembOf_pos memx h0))
  cases hf : searchLoop (s.memmap memx) (nmembOf memx size) (memtblsize memx) 0 with
  | none =>
    rw [hf] at hspec
    exact absurd hrun (hspec _)
  | some o =>
    rw [hf] at hspec
    have hle : K - nmembOf memx size ≤ o := hspec.2 hrun
    have hin := hspec.1.1
    have hbase := L.membase_lt memx
    have hsize := memsize_eq memx
    have htbl := memtblsize_lt memx
    have hpos := nmembOf_pos memx h0
    have hm : myMemMalloc L memx size s = (32 * o, { s with
        memmap := Function.update s.memmap memx
          (fill (s.memmap memx) o (nmembOf memx size % 2 ^ 16) (nmembOf memx size)) }) := by
      simp only [myMemMalloc, hr, if_true, if_neg h0, hf]
      rw [memblksize_eq, Nat.mul_comm]
    unfold mymalloc
    simp only [hm]
    rw [if_neg (by omega), Nat.mod_eq_of_lt (by omega)]
    refine ⟨addr_ne_null o, hr, fun i hi => ?_⟩
    simp only [Function.update_self, fill_eq_paint]
    rw [paint_of_not_has (by rw [Block.has_mk]; omega)]
    exact hz i (by omega)

/-- With nothing in use below the entry 958 the four requests are granted. -/
theorem ethMemMalloc_below {L : Layout} {s : MallcoDev} (hr : s.memrdy .sramin = true)
    (hz : ∀ i, i < 958 → s.memmap .sramin i = 0) : (ethMemMalloc L s).1 = 0 := by
  obtain ⟨hn₁, hr₁, hz₁⟩ := mymalloc_below (L := L) rxDescBytes hr (by decide) hz (by decide)
    (by decide)
  obtain ⟨hn₂, hr₂, hz₂⟩ := mymalloc_below (L := L) txDescBytes hr₁ (by decide) hz₁ (by decide)
    (by decide)
  obtain ⟨hn₃, hr₃, hz₃⟩ := mymalloc_below (L := L) rxBuffBytes hr₂ (by decide) hz₂ (by decide)
    (by decide)
  obtain ⟨hn₄, -⟩ := mymalloc_below (L := L) txBuffBytes hr₃ (by decide) hz₃ (by decide)
    (by decide)
  unfold ethMemMalloc
  simp only [hn₁, hn₂, hn₃, hn₄, or_self, if_false]

/-- Two blocks of one entry each are live when the driver asks for its memory, and gets it. -/
theorem ethMemMalloc_allOrNothing_twoBlocks :
    twoBlocks.live = [⟨958, 1⟩, ⟨959, 1⟩] ∧ (ethMemMalloc iramLayout twoBlocks.dev).1 = 0 ∧
      (txBuffCall iramLayout twoBlocks.dev).1 ≠ NULL ∧ EthMemLaw iramLayout twoBlocks := by
  have hlaw := ethMemMalloc_allOrNothing iramLayout iramTables twoBlocks_reachable
  obtain ⟨s₀, hinv⟩ := twoBlocks_reachable.inv
  have hrec := hinv.records
  rw [twoBlocks_live] at hrec
  have hfree : ∀ i, i < 958 → twoBlocks.dev.memmap .sramin i = 0 := by
    intro i hi
    refine hrec.free i (Nat.lt_trans hi (by decide)) fun b hb hhas => ?_
    rcases List.mem_pair.mp hb with rfl | rfl
    · exact absurd hhas.1 (Nat.not_le.mpr hi)
    · exact absurd hhas.1 (Nat.not_le.mpr (Nat.lt_succ_of_lt hi))
  have hzero : (ethMemMalloc iramLayout twoBlocks.dev).1 = 0 :=
    ethMemMalloc_below hinv.ready hfree
  exact ⟨twoBlocks_live, hzero, (hlaw.zero_iff.mp hzero).2.2.2, hlaw⟩

end Stm32F407.Eth
