import Mathlib.Data.List.Perm.Basic
import Stm32F407.Lib.Runs
import Stm32F407.Lwip.MemTrim

/-!
# Runs of the heap: what its clients see

`World` is the heap and what the clients own: their pointers, each with the bytes that its owner has
put there. The clients call `mem_malloc`, `mem_calloc`, `mem_free` and `mem_trim` in any order and
store into their blocks; a step is `Legal` when it frees, trims and stores only inside what is owned.
A call is one step. `SYS_ARCH_PROTECT` is empty in this program and `ETH_IRQHandler` runs lwIP beside
the main loop, so the results are about programs whose calls do not interrupt each other.

`Kept` ties the owned bytes to the tiles of `MemOps.lean`, and every legal step keeps it
(`Kept.step`). So every owner finds in its block what it has put there (`live_blocks_kept`), a request
is refused only when no gap is long enough, after a number of rounds bounded by that of the blocks
(`malloc_first_fit`), and freeing everything gives back the heap of `mem_init` (`freed_heap_whole`).
-/

namespace Stm32F407.Lwip.Mem

open Stm32F407.Lib

/-- The heap, and the blocks the clients own with the bytes they have put there. -/
structure World where
  heap : Heap
  live : List (Nat × List UInt8)

/-- A call of a client, or a store of `bs` at the offset `off` of its block at `p`. -/
inductive Event
  | malloc (size : Nat)
  | calloc (count size : Nat)
  | free (p : Nat)
  | trim (p newSize : Nat)
  | store (p off : Nat) (bs : List UInt8)

/-- The bytes `cs` with `bs` at the offset `off`. -/
def patch (off : Nat) (bs cs : List UInt8) : List UInt8 :=
  cs.take off ++ bs ++ cs.drop (off + bs.length)

/-- The block at `p` with other contents. -/
def atBlock (p : Nat) (f : List UInt8 → List UInt8) (b : Nat × List UInt8) : Nat × List UInt8 :=
  if b.1 = p then (b.1, f b.2) else b

/-- One call or store. -/
def World.step (w : World) : Event → World
  | .malloc size =>
    match memMalloc w.heap size with
    | (none, h) => { w with heap := h }
    | (some p, h) => ⟨h, (p, readRun h.mem p size) :: w.live⟩
  | .calloc count size =>
    match memCalloc w.heap count size with
    | (none, h) => { w with heap := h }
    | (some p, h) => ⟨h, (p, List.replicate (count * size) 0) :: w.live⟩
  | .free p => ⟨memFree w.heap p, w.live.filter fun b => b.1 ≠ p⟩
  | .trim p newSize =>
    match memTrim w.heap p newSize with
    | (none, h) => { w with heap := h }
    | (some _, h) => ⟨h, w.live.map (atBlock p (List.take newSize))⟩
  | .store p off bs =>
    ⟨{ w.heap with mem := blit w.heap.mem (p + off) bs }, w.live.map (atBlock p (patch off bs))⟩

/-- After `mem_init`. -/
def World.boot (ram : Nat) (mem : Nat → UInt8) : World := ⟨memInit ram mem, []⟩

/-- Clients free `NULL` or what they own, trim what they own to what they have there at most, and
store inside it. -/
def Legal (w : World) : Event → Prop
  | .free p => p = 0 ∨ ∃ b ∈ w.live, b.1 = p
  | .trim p newSize => ∃ b ∈ w.live, b.1 = p ∧ newSize ≤ b.2.length
  | .store p off bs => ∃ b ∈ w.live, b.1 = p ∧ off + bs.length ≤ b.2.length
  | _ => True

instance Legal.instDecidable (w : World) : ∀ e, Decidable (Legal w e)
  | .free _ => inferInstanceAs (Decidable (_ ∨ _))
  | .trim _ _ => inferInstanceAs (Decidable (∃ b ∈ w.live, _))
  | .store _ _ _ => inferInstanceAs (Decidable (∃ b ∈ w.live, _))
  | .malloc _ => isTrue trivial
  | .calloc _ _ => isTrue trivial

variable {w : World} {h h' : Heap} {ram p q n size : Nat} {bs cs : List UInt8} {t : Tile}
  {ts us xs ys : List Tile}

/-- A block as the tiles see it. -/
def extent (b : Nat × List UInt8) : Nat × Nat := (b.1, b.2.length)

/-- The bytes the owners of tiles have. -/
abbrev ownedBy (h : Heap) (ts : List Tile) : List (Nat × Nat) := owned sizeofStructMem h.ram ts

/-- **The invariant**: the blocks are those of the tiles in use, with the owners' bytes in them. -/
structure Kept (ram : Nat) (w : World) (ts : List Tile) : Prop where
  base : w.heap.ram = ram
  rep : Rep w.heap ts
  live : (w.live.map extent).Perm (ownedBy w.heap ts)
  bytes : ∀ b ∈ w.live, readRun w.heap.mem b.1 b.2.length = b.2

/-! ## The headers and the owners' bytes are apart -/

theorem Rep.pairwise (hr : Rep h ts) :
    (ownedBy h ts).Pairwise fun a b => a.1 + a.2 + sizeofStructMem ≤ b.1 :=
  owned_pairwise h.ram hr.snug.sound

theorem Rep.apart (hr : Rep h ts) (ho : (q, n) ∈ ownedBy h ts) {v a : Nat}
    (hv : v ∈ starts 0 ts) (hq : q ≤ a) (ha : a < q + n) :
    a < h.ram + v ∨ h.ram + v + sizeofStructMem ≤ a :=
  apart_of_mem_owned hr.snug.sound (by decide) ho (mem_starts_add hv) hq ha

/-- What is written in the headers is not seen by an owner. -/
theorem Rep.frame {g : Heap} (hr : Rep g us) (hram : g.ram = h.ram) (he : Edited h h' (starts 0 us))
    (ho : (q, n) ∈ ownedBy g us) : readRun h'.mem q n = readRun h.mem q n := by
  refine readRun_congr fun i hi => he.mem _ fun v hv => ?_
  rw [← hram]
  exact hr.apart ho hv (Nat.le_add_right _ _) (by omega)

/-- What an owner stores is not seen in the headers. -/
theorem Rep.store (hr : Rep h ts) (ho : (q, n) ∈ ownedBy h ts) {off : Nat}
    (hin : off + bs.length ≤ n) : Rep { h with mem := blit h.mem (q + off) bs } ts := by
  have hout : ∀ v, (∀ a, q ≤ a → a < q + n → a < h.ram + v ∨ h.ram + v + sizeofStructMem ≤ a) →
      Heap.hdr { h with mem := blit h.mem (q + off) bs } v = h.hdr v := by
    intro v hv
    refine hdr_congr rfl fun i hi => blit_of_out ?_
    by_contra hc
    have := hv (h.ram + v + i) (by omega) (by omega)
    omega
  have hend := (le_of_mem_owned hr.snug.sound ho).2
  refine ⟨⟨hr.laid.tiled.congr fun v hv => hout v fun a => hr.apart ho hv, hr.laid.whole, ?_,
    hr.laid.least⟩, hr.lfree, hr.stat, hr.snug, hr.aligned⟩
  rw [hout memSizeAligned fun a _ ha => Or.inl (by rw [hr.laid.whole] at hend; omega)]
  exact hr.laid.sentinel

/-- Two blocks with at least a header between them. -/
def Clear (a b : Nat × List UInt8) : Prop :=
  a.1 + a.2.length + sizeofStructMem ≤ b.1 ∨ b.1 + b.2.length + sizeofStructMem ≤ a.1

instance Clear.instSymm : Std.Symm Clear := ⟨fun _ _ => Or.symm⟩

theorem Kept.clear (hk : Kept ram w ts) : w.live.Pairwise Clear := by
  have hord : (ownedBy w.heap ts).Pairwise fun a b =>
      a.1 + a.2 + sizeofStructMem ≤ b.1 ∨ b.1 + b.2 + sizeofStructMem ≤ a.1 :=
    hk.rep.pairwise.imp Or.inl
  have hlive := (hk.live.pairwise_iff fun {a b} hab => Or.symm hab).mpr hord
  rw [List.pairwise_map] at hlive
  exact hlive

/-- A block is known by where it begins. -/
theorem Kept.unique (hk : Kept ram w ts) (hb : (p, cs) ∈ w.live) {b : Nat × List UInt8}
    (hb' : b ∈ w.live) (hp : b.1 = p) : b = (p, cs) := by
  by_contra hne
  have hclear := hk.clear.forall hb' hb hne
  have h8 : sizeofStructMem = 8 := rfl
  unfold Clear at hclear
  omega

theorem Kept.mem_owned (hk : Kept ram w ts) {b : Nat × List UInt8} (hb : b ∈ w.live) :
    extent b ∈ ownedBy w.heap ts :=
  hk.live.mem_iff.mp (List.mem_map_of_mem hb)

/-! ## The calls -/

/-- Statistics aside, a heap that did not change. -/
theorem Rep.incErr (hr : Rep h ts) : Rep h.incErr ts :=
  ⟨⟨hr.laid.tiled, hr.laid.whole, hr.laid.sentinel, hr.laid.least⟩, hr.lfree, hr.stat, hr.snug,
    hr.aligned⟩

theorem ownedBy_allot (hedit : h'.ram = h.ram) (hsome : allotHeap size n ts = some (q, us)) :
    (ownedBy h' us).Perm ((h.ram + q + sizeofStructMem, n) :: ownedBy h ts) := by
  obtain ⟨xs, t, ys, rfl, rfl, -, hfit, rfl⟩ := allot_eq_some hsome
  unfold ownedBy
  rw [hedit, owned_append, owned_carve _ hfit.2, owned_append, Tile.eq_of_free hfit.1,
    owned_cons_free]
  exact List.perm_middle

/-- `mem_malloc` adds a block, or leaves everything as it is. -/
theorem Kept.malloc (hk : Kept ram w ts) (size : Nat) : ∃ us, Kept ram (w.step (.malloc size)) us := by
  by_cases ha : Accepted size
  · cases hsome : allotHeap (blockSize size) size ts with
    | none =>
      refine ⟨ts, ?_⟩
      rw [World.step, memMalloc_none hk.rep ha hsome]
      exact ⟨hk.base, hk.rep.incErr, hk.live, hk.bytes⟩
    | some r =>
      obtain ⟨q, us⟩ := r
      obtain ⟨hp, hr, he⟩ := memMalloc_some hk.rep ha hsome
      refine ⟨us, ?_⟩
      rw [World.step]
      generalize memMalloc w.heap size = m at *
      obtain ⟨p, g⟩ := m
      obtain rfl : p = some (w.heap.ram + q + sizeofStructMem) := hp
      have hperm : (ownedBy g us).Perm _ := ownedBy_allot he.ram hsome
      have hlive : (((w.heap.ram + q + sizeofStructMem, readRun g.mem
          (w.heap.ram + q + sizeofStructMem) size) :: w.live).map extent).Perm (ownedBy g us) := by
        refine List.Perm.trans ?_ hperm.symm
        simp only [List.map_cons, extent, readRun_length]
        exact hk.live.cons _
      refine ⟨he.ram.trans hk.base, hr, hlive, List.forall_mem_cons.mpr ⟨?_, fun b hb => ?_⟩⟩
      · rw [readRun_length]
      · have hb' : extent b ∈ ownedBy g us :=
          hlive.mem_iff.mp (List.mem_cons_of_mem _ (List.mem_map_of_mem hb))
        exact (hr.frame he.ram he hb').trans (hk.bytes b hb)
  · refine ⟨ts, ?_⟩
    rw [World.step, memMalloc_refused ha]
    exact hk

theorem length_patch {off : Nat} (hin : off + bs.length ≤ cs.length) :
    (patch off bs cs).length = cs.length := by
  simp only [patch, List.length_append, List.length_take, List.length_drop]
  omega

/-- What the owner reads after a store. -/
theorem readRun_patch {f : Nat → UInt8} {off : Nat} (hin : off + bs.length ≤ n) :
    readRun (blit f (q + off) bs) q n = patch off bs (readRun f q n) := by
  refine List.ext_getElem? fun i => ?_
  by_cases hi : i < n
  · rw [readRun_getElem? _ hi, patch]
    by_cases hlo : i < off
    · rw [blit_of_out (Or.inl (by omega)), List.append_assoc,
        List.getElem?_append_left (by simp; omega), List.getElem?_take_of_lt hlo,
        readRun_getElem? _ hi]
    by_cases hmid : i < off + bs.length
    · obtain ⟨j, rfl⟩ := Nat.exists_eq_add_of_le (Nat.le_of_not_lt hlo)
      have hj : j < bs.length := by omega
      rw [← Nat.add_assoc, blit_of_lt hj, List.append_assoc,
        List.getElem?_append_right (by simp), List.length_take, readRun_length,
        Nat.min_eq_left (by omega), Nat.add_sub_cancel_left, List.getElem?_append_left hj,
        List.getElem?_eq_getElem hj]
    · have hlen : ((readRun f q n).take off ++ bs).length = off + bs.length := by
        rw [List.length_append, List.length_take, readRun_length, Nat.min_eq_left (by omega)]
      rw [blit_of_out (Or.inr (by omega)), List.getElem?_append_right (by omega), hlen,
        List.getElem?_drop, Nat.add_sub_cancel' (by omega), readRun_getElem? _ hi]
  · rw [List.getElem?_eq_none (by simp; omega), List.getElem?_eq_none]
    rw [length_patch (by simpa using hin), readRun_length]
    omega

/-- A block whose owner stores into it. -/
theorem Kept.store (hk : Kept ram w ts) {off : Nat} (hb : (p, cs) ∈ w.live)
    (hin : off + bs.length ≤ cs.length) : Kept ram (w.step (.store p off bs)) ts := by
  refine ⟨hk.base, hk.rep.store (hk.mem_owned hb) hin, ?_, ?_⟩
  · have hsame : (w.live.map (atBlock p (patch off bs))).map extent = w.live.map extent := by
      rw [List.map_map]
      refine List.map_congr_left fun b hb' => ?_
      show extent (atBlock p (patch off bs) b) = extent b
      unfold atBlock
      split_ifs with hp
      · obtain rfl := hk.unique hb hb' hp
        rw [extent, length_patch hin]
        rfl
      · rfl
    show (((w.live.map (atBlock p (patch off bs))).map extent)).Perm (ownedBy w.heap ts)
    rw [hsame]
    exact hk.live
  · intro b' hb'
    obtain ⟨b, hmem, rfl⟩ := List.mem_map.mp hb'
    show readRun (blit w.heap.mem (p + off) bs) _ _ = _
    unfold atBlock
    split_ifs with hp
    · obtain rfl := hk.unique hb hmem hp
      simp only
      rw [length_patch hin, readRun_patch hin, hk.bytes _ hb]
    · have hclear := hk.clear.forall hmem hb fun he => hp (by rw [he])
      unfold Clear at hclear
      simp only at hclear
      rw [readRun_blit_of_apart (by omega)]
      exact hk.bytes b hmem

/-- The blocks beside the one at a tile begin elsewhere. -/
theorem Rep.others (hr : Rep h (xs ++ t :: ys)) {a : Nat × Nat}
    (ha : a ∈ owned sizeofStructMem h.ram xs ∨
      a ∈ owned sizeofStructMem (h.ram + total xs + t.len) ys) :
    a.1 ≠ h.ram + total xs + sizeofStructMem := by
  have h8 : sizeofStructMem = 8 ∧ leastTile = 20 := ⟨rfl, rfl⟩
  have hsound := hr.snug.sound
  have ht := (hsound t (by simp)).least_le
  rcases ha with ha | ha
  · have := (le_of_mem_owned (fun x hx => hsound x (List.mem_append_left _ hx)) ha).2
    omega
  · have := (le_of_mem_owned (fun x hx => hsound x (by simp [hx])) ha).1
    omega

/-- `mem_free` takes the block out. -/
theorem Kept.free (hk : Kept ram w ts) (hb : (p, cs) ∈ w.live) :
    ∃ us, Kept ram (w.step (.free p)) us := by
  obtain ⟨xs, t, ys, rfl, rfl, ht⟩ := exists_of_mem_owned (hk.mem_owned hb)
  have hpos : ∀ x ∈ xs, 0 < x.len := fun x hx =>
    Nat.lt_of_lt_of_le (by decide) (hk.rep.laid.least x (List.mem_append_left _ hx))
  have hused : t.used = true := by simp [Tile.used, ht]
  obtain ⟨hr, he, -⟩ := memFree_spec hk.rep hused
  have hsub : ∀ b ∈ w.live.filter fun b => b.1 ≠ w.heap.ram + total xs + sizeofStructMem,
      b ∈ w.live := fun b hb => List.mem_of_mem_filter hb
  refine ⟨_, he.ram.trans hk.base, hr, ?_, fun b hb' => ?_⟩
  · have hfilter : ((w.live.filter fun b => b.1 ≠ w.heap.ram + total xs + sizeofStructMem).map
        extent) = (w.live.map extent).filter fun a =>
          a.1 ≠ w.heap.ram + total xs + sizeofStructMem := by
      rw [List.filter_map]
      rfl
    have hperm := hk.live.filter fun a => a.1 ≠ w.heap.ram + total xs + sizeofStructMem
    have hself : ∀ l : List (Nat × Nat), (∀ a ∈ l, a ∈ owned sizeofStructMem w.heap.ram xs ∨
        a ∈ owned sizeofStructMem (w.heap.ram + total xs + t.len) ys) →
          l.filter (fun a => a.1 ≠ w.heap.ram + total xs + sizeofStructMem) = l := fun l hl =>
      List.filter_eq_self.mpr fun a ha => by simpa using hk.rep.others (hl a ha)
    unfold ownedBy at hperm ⊢
    rw [owned_append, owned, ht] at hperm
    simp only [Option.map_some, Option.toList_some, List.filter_append] at hperm
    rw [hself _ fun a => Or.inl, hself _ fun a => Or.inr] at hperm
    simp only [World.step]
    rw [hfilter, he.ram, owned_release _ hpos]
    simpa using hperm
  · exact (hk.rep.frame rfl he (hk.mem_owned (hsub b hb'))).trans (hk.bytes b (hsub b hb'))

/-- A block can be trimmed to any size its owner's bytes have. -/
theorem trimSize_of_le (ht : t.Sound sizeofStructMem leastTile memAlignment)
    (hle : t.len ≤ memSizeAligned) (hn : n + sizeofStructMem ≤ t.len) :
    TrimSize n ∧ blockSize n + sizeofStructMem ≤ t.len := by
  have hleast : 20 ≤ t.len := ht.least_le
  have hal : 4 ∣ t.len := ht.aligned
  have h8 : sizeofStructMem = 8 ∧ memSizeAligned = 16000 := ⟨rfl, rfl⟩
  have hblock : blockSize n = max ((n + 4 - 1) / 4 * 4 % 2 ^ 16) 12 := rfl
  unfold TrimSize
  omega

theorem take_readRun (f : Nat → UInt8) {m : Nat} (hn : n ≤ m) :
    (readRun f q m).take n = readRun f q n := by
  unfold readRun
  rw [← List.map_take, List.take_range, Nat.min_eq_left hn]

/-- `mem_trim` keeps the first bytes of the block. -/
theorem Kept.trim (hk : Kept ram w ts) (hb : (p, cs) ∈ w.live) (hin : n ≤ cs.length) :
    (memTrim w.heap p n).1 = some p ∧ ∃ us, Kept ram (w.step (.trim p n)) us := by
  obtain ⟨xs, t, ys, rfl, rfl, ht⟩ := exists_of_mem_owned (hk.mem_owned hb)
  have hused : t.used = true := by simp [Tile.used, ht]
  have hsound := hk.rep.snug.sound t (by simp)
  have hlen : cs.length + sizeofStructMem ≤ t.len := hsound.fits _ ht
  have hle := hk.rep.laid.le.1
  obtain ⟨ha, hfit⟩ := trimSize_of_le hsound (by omega) ((Nat.add_le_add_right hin _).trans hlen)
  obtain ⟨hp, hr, he⟩ := memTrim_spec hk.rep hused ha hfit
  refine ⟨hp, xs ++ trimmed sizeofStructMem leastTile (blockSize n) n t ys, ?_⟩
  have hothers := fun a => @Rep.others w.heap t xs ys hk.rep a
  generalize hq : w.heap.ram + total xs + sizeofStructMem = q at *
  rw [World.step]
  generalize memTrim w.heap q n = m at *
  obtain ⟨p', g⟩ := m
  obtain rfl : p' = some q := hp
  simp only at hr he ⊢
  -- the sizes of the blocks
  have hext : (w.live.map (atBlock q (List.take n))).map extent = (w.live.map extent).map
      fun a => if a.1 = q then (a.1, min n a.2) else a := by
    rw [List.map_map, List.map_map]
    refine List.map_congr_left fun b _ => ?_
    simp only [Function.comp, atBlock, extent]
    by_cases hbq : b.1 = q
    · simp only [if_pos hbq, List.length_take]
      exact (if_pos hbq).symm
    · simp only [if_neg hbq]
      exact (if_neg hbq).symm
  have hlive : ((w.live.map (atBlock q (List.take n))).map extent).Perm
      (ownedBy g (xs ++ trimmed sizeofStructMem leastTile (blockSize n) n t ys)) := by
    have hperm := hk.live.map fun a => if a.1 = q then (a.1, min n a.2) else a
    have hself : ∀ l : List (Nat × Nat), (∀ a ∈ l, a ∈ owned sizeofStructMem w.heap.ram xs ∨
        a ∈ owned sizeofStructMem (w.heap.ram + total xs + t.len) ys) →
          l.map (fun a => if a.1 = q then (a.1, min n a.2) else a) = l := fun l hl =>
      (List.map_congr_left fun a ha => if_neg (hothers a (hl a ha))).trans (List.map_id' l)
    unfold ownedBy at hperm ⊢
    rw [owned_append, owned, ht] at hperm
    simp only [Option.map_some, Option.toList_some, List.map_append] at hperm
    rw [hself _ fun a => Or.inl, hself _ fun a => Or.inr, hq] at hperm
    rw [hext, he.ram, owned_append, owned_trimmed _ hfit, hq]
    simpa [Nat.min_eq_left hin] using hperm
  refine ⟨he.ram.trans hk.base, hr, hlive, fun b' hb' => ?_⟩
  have hown : extent b' ∈ ownedBy g _ := hlive.mem_iff.mp (List.mem_map_of_mem hb')
  have hframe := hr.frame he.ram he hown
  obtain ⟨b, hmem, rfl⟩ := List.mem_map.mp hb'
  refine hframe.trans ?_
  unfold atBlock
  split_ifs with hbq
  · obtain rfl := hk.unique hb hmem hbq
    simp only
    rw [List.length_take, Nat.min_eq_left hin, ← take_readRun _ hin, hk.bytes _ hb]
  · exact hk.bytes b hmem

/-- `mem_calloc` adds a block of zeros, or leaves everything as it is. -/
theorem Kept.calloc (hk : Kept ram w ts) (count size : Nat) :
    ∃ us, Kept ram (w.step (.calloc count size)) us := by
  rw [World.step, memCalloc]
  by_cases hover : count * size % 2 ^ 16 ≠ count * size
  · simp only [if_pos hover]
    exact ⟨ts, hk⟩
  · simp only [if_neg hover]
    obtain ⟨us, hm⟩ := hk.malloc (count * size)
    rw [World.step] at hm
    generalize memMalloc w.heap (count * size) = m at *
    obtain ⟨_ | p, g⟩ := m
    · exact ⟨us, hm⟩
    · -- the zeros are stored like any bytes of the owner
      have hlen : (List.replicate (count * size) (0 : UInt8)).length = count * size :=
        List.length_replicate
      have hin : 0 + (List.replicate (count * size) (0 : UInt8)).length ≤
          (readRun g.mem p (count * size)).length := by
        rw [hlen, readRun_length, Nat.zero_add]
      have hst := hm.store List.mem_cons_self hin
      have hpatch : patch 0 (List.replicate (count * size) 0)
          (readRun g.mem p (count * size)) = List.replicate (count * size) 0 := by
        rw [patch, hlen, List.take_zero, List.nil_append, Nat.zero_add,
          List.drop_eq_nil_of_le (by rw [readRun_length]), List.append_nil]
      have hrest : w.live.map (atBlock p (patch 0 (List.replicate (count * size) 0))) = w.live := by
        refine (List.map_congr_left fun b hb => if_neg fun hp => ?_).trans (List.map_id' _)
        have hclear := (List.pairwise_cons.mp hm.clear).1 b hb
        have h8 : sizeofStructMem = 8 := rfl
        unfold Clear at hclear
        simp only at hclear
        omega
      rw [World.step] at hst
      simp only [List.map_cons, hrest] at hst
      rw [atBlock, if_pos rfl, hpatch] at hst
      exact ⟨us, hst⟩

/-- **Every legal call and store keeps the invariant.** -/
theorem Kept.step (hk : Kept ram w ts) {e : Event} (hl : Legal w e) : ∃ us, Kept ram (w.step e) us := by
  cases e with
  | malloc size => exact hk.malloc size
  | calloc count size => exact hk.calloc count size
  | free p =>
    rcases hl with rfl | ⟨b, hb, rfl⟩
    · -- `NULL` is nobody's block
      refine ⟨ts, ?_⟩
      have hfilter : w.live.filter (fun b => b.1 ≠ 0) = w.live := by
        refine List.filter_eq_self.mpr fun b hb => ?_
        have h8 : sizeofStructMem = 8 := rfl
        have hle := (le_of_mem_owned hk.rep.snug.sound (hk.mem_owned hb)).1
        have hne : b.1 ≠ 0 := by omega
        simpa using hne
      rw [World.step, hfilter]
      exact hk
    · exact hk.free hb
  | trim p newSize =>
    obtain ⟨b, hb, rfl, hin⟩ := hl
    exact (hk.trim hb hin).2
  | store p off bs =>
    obtain ⟨b, hb, rfl, hin⟩ := hl
    exact ⟨ts, hk.store hb hin⟩

/-! ## What holds in every run -/

section

variable {mem : Nat → UInt8} {es : List Event}

/-- The world after the events `es`. -/
abbrev World.after (ram : Nat) (mem : Nat → UInt8) (es : List Event) : World :=
  run World.step (World.boot ram mem) es

/-- The invariant holds after every run of legal steps. -/
theorem kept_after (hram : ram % memAlignment = 0)
    (hes : AllSteps World.step Legal (World.boot ram mem) es) :
    ∃ ts, Kept ram (World.after ram mem es) ts := by
  refine run_invariant (P := fun w => ∃ ts, Kept ram w ts) (fun w e hk hl => ?_) ?_ hes
  · obtain ⟨ts, hk⟩ := hk
    exact hk.step hl
  · exact ⟨_, rfl, memInit_spec hram mem, List.Perm.refl _, fun b hb => by cases hb⟩

/-- **Every owner finds in its block what it has put there**: the blocks are aligned, inside the
heap, and apart from each other by a header at least. -/
theorem live_blocks_kept (hram : ram % memAlignment = 0)
    (hes : AllSteps World.step Legal (World.boot ram mem) es) :
    (∀ b ∈ (World.after ram mem es).live,
      readRun (World.after ram mem es).heap.mem b.1 b.2.length = b.2 ∧
        b.1 % memAlignment = 0 ∧ ram + sizeofStructMem ≤ b.1 ∧
        b.1 + b.2.length ≤ ram + memSizeAligned) ∧
      (World.after ram mem es).live.Pairwise Clear := by
  obtain ⟨ts, hk⟩ := kept_after hram hes
  refine ⟨fun b hb => ⟨hk.bytes b hb, ?_⟩, hk.clear⟩
  have ho := hk.mem_owned hb
  have hle := le_of_mem_owned hk.rep.snug.sound ho
  rw [hk.base, hk.rep.laid.whole] at hle
  obtain ⟨xs, t, ys, rfl, hq, -⟩ := exists_of_mem_owned ho
  refine ⟨?_, hle⟩
  have hdvd : 4 ∣ total xs :=
    dvd_total fun x hx => (hk.rep.snug.sound x (List.mem_append_left _ hx)).aligned
  have h8 : sizeofStructMem = 8 := rfl
  have hbase := hk.base
  have hram4 : ram % 4 = 0 := hram
  rw [hbase] at hq
  show b.1 % 4 = 0
  omega

/-- Two blocks, a store into the first, and the second given back. -/
theorem live_blocks_kept_two :
    AllSteps World.step Legal (World.boot 1000 fun _ => 0)
        [.malloc 10, .malloc 30, .store 1008 2 [7, 8], .free 1028, .trim 1008 4] ∧
      (World.after 1000 (fun _ => 0) [.malloc 10, .malloc 30, .store 1008 2 [7, 8], .free 1028,
        .trim 1008 4]).live = [(1008, [0, 0, 7, 8])] ∧
      readRun (World.after 1000 (fun _ => 0) [.malloc 10, .malloc 30, .store 1008 2 [7, 8],
        .free 1028, .trim 1008 4]).heap.mem 1008 4 = [0, 0, 7, 8] := by
  have hes : AllSteps World.step Legal (World.boot 1000 fun _ => 0)
      [.malloc 10, .malloc 30, .store 1008 2 [7, 8], .free 1028, .trim 1008 4] := by decide +kernel
  have hlive : (World.after 1000 (fun _ => 0) [.malloc 10, .malloc 30, .store 1008 2 [7, 8],
      .free 1028, .trim 1008 4]).live = [(1008, [0, 0, 7, 8])] := by decide +kernel
  refine ⟨hes, hlive, ((live_blocks_kept (by decide) hes).1 (1008, [0, 0, 7, 8]) ?_).1⟩
  rw [hlive]
  exact List.mem_singleton.mpr rfl

/-- **`mem_malloc` is first fit, and complete**: the headers tile the heap with the blocks of the
owners and gaps that do not touch each other, a request is refused iff no gap is long enough for it,
and it gets the lowest that is; its loops are left after at most two rounds more than there are
blocks and gaps. -/
theorem malloc_first_fit (hram : ram % memAlignment = 0)
    (hes : AllSteps World.step Legal (World.boot ram mem) es) :
    ∃ ts, Laid (World.after ram mem es).heap ts ∧ ts.IsChain Neighbours ∧
      ((World.after ram mem es).live.map extent).Perm (owned sizeofStructMem ram ts) ∧
      ∀ n, Accepted n →
        LoopsEnd (World.after ram mem es).heap (blockSize n) (ts.length + 2) ∧
        ((memMalloc (World.after ram mem es).heap n).1 = none ↔
          ∀ t ∈ ts, ¬ t.Fits sizeofStructMem (blockSize n)) ∧
        ∀ p, (memMalloc (World.after ram mem es).heap n).1 = some p →
          ∃ xs t ys, ts = xs ++ t :: ys ∧ p = ram + total xs + sizeofStructMem ∧
            t.Fits sizeofStructMem (blockSize n) ∧
            ∀ x ∈ xs, ¬ x.Fits sizeofStructMem (blockSize n) := by
  obtain ⟨ts, hk⟩ := kept_after hram hes
  have hlive := hk.live
  unfold ownedBy at hlive
  rw [hk.base] at hlive
  refine ⟨ts, hk.rep.laid, hk.rep.snug.apart, hlive, fun n ha => ⟨hk.rep.loopsEnd ha, ?_⟩⟩
  have hnone := @allot_eq_none ts sizeofStructMem leastTile (blockSize n) n
  cases hsome : allotHeap (blockSize n) n ts with
  | none =>
    rw [memMalloc_none hk.rep ha hsome]
    exact ⟨iff_of_true rfl (hnone.mp hsome), fun p hp => by cases hp⟩
  | some r =>
    obtain ⟨q, us⟩ := r
    obtain ⟨hp, -, -⟩ := memMalloc_some hk.rep ha hsome
    rw [hp, ← hnone, hk.base]
    refine ⟨iff_of_false (Option.some_ne_none _) ?_, ?_⟩
    · rw [show allot sizeofStructMem leastTile (blockSize n) n ts = _ from hsome]
      exact Option.some_ne_none _
    · rintro p ⟨⟩
      obtain ⟨xs, t, ys, rfl, rfl, hno, hfit, -⟩ := allot_eq_some hsome
      exact ⟨xs, t, ys, rfl, rfl, hfit, hno⟩

/-- The gap behind the block is too short for 15960 bytes, and the lowest that is long enough for
15940. -/
theorem malloc_first_fit_last :
    (memMalloc (World.after 1000 (fun _ => 0) [.malloc 30]).heap 15960).1 = none ∧
      (memMalloc (World.after 1000 (fun _ => 0) [.malloc 30]).heap 15940).1 = some 1048 ∧
      ∃ ts, Laid (World.after 1000 (fun _ => 0) [.malloc 30]).heap ts ∧
        LoopsEnd (World.after 1000 (fun _ => 0) [.malloc 30]).heap (blockSize 15960)
          (ts.length + 2) ∧
        (∀ t ∈ ts, ¬ t.Fits sizeofStructMem (blockSize 15960)) ∧
        ∃ xs t ys, ts = xs ++ t :: ys ∧ 1048 = 1000 + total xs + sizeofStructMem ∧
          t.Fits sizeofStructMem (blockSize 15940) ∧
          ∀ x ∈ xs, ¬ x.Fits sizeofStructMem (blockSize 15940) := by
  have hshort : (memMalloc (World.after 1000 (fun _ => 0) [.malloc 30]).heap 15960).1 = none := by
    decide +kernel
  have hlong : (memMalloc (World.after 1000 (fun _ => 0) [.malloc 30]).heap 15940).1 = some 1048 := by
    decide +kernel
  obtain ⟨ts, hl, -, -, hfit⟩ := @malloc_first_fit 1000 (fun _ => 0) [.malloc 30] (by decide)
    ⟨trivial, trivial⟩
  obtain ⟨hends, hnone, -⟩ := hfit 15960 (by decide)
  exact ⟨hshort, hlong, ts, hl, hends, hnone.mp hshort, (hfit 15940 (by decide)).2.2 1048 hlong⟩

/-- **Nothing leaks**: the count of used bytes is zero iff nobody owns a block, and then the heap is
one free block again, from which every size up to the whole heap can be had. -/
theorem freed_heap_whole (hram : ram % memAlignment = 0)
    (hes : AllSteps World.step Legal (World.boot ram mem) es) :
    ((World.after ram mem es).heap.statUsed = 0 ↔ (World.after ram mem es).live = []) ∧
      ((World.after ram mem es).live = [] →
        (World.after ram mem es).heap.lfree = 0 ∧
        (World.after ram mem es).heap.hdr 0 = ⟨memSizeAligned, 0, false⟩ ∧
        ∀ n, 0 < n → n + sizeofStructMem ≤ memSizeAligned →
          (memMalloc (World.after ram mem es).heap n).1 = some (ram + sizeofStructMem)) := by
  obtain ⟨ts, hk⟩ := kept_after hram hes
  have hpos : ∀ t ∈ ts, 0 < t.len := fun t ht =>
    Nat.lt_of_lt_of_le (by decide) (hk.rep.laid.least t ht)
  have hempty : (World.after ram mem es).live = [] ↔
      ownedBy (World.after ram mem es).heap ts = [] := by
    constructor
    · intro hlive
      have := hk.live
      rw [hlive] at this
      exact this.nil_eq.symm
    · intro ho
      have := hk.live
      rw [ho] at this
      exact List.map_eq_nil_iff.mp this.eq_nil
  refine ⟨?_, fun hlive => ?_⟩
  · rw [hk.rep.stat, hempty]
    exact usedBytes_eq_zero_iff _ hpos
  · have hne : ts ≠ [] := fun hts => by
      have := hk.rep.laid.whole
      rw [hts] at this
      cases this
    have hts := hk.rep.snug.eq_singleton hne (hempty.mp hlive)
    rw [hk.rep.laid.whole] at hts
    obtain rfl := hts
    refine ⟨hk.rep.lfree, ?_, fun n hn hle => ?_⟩
    · exact @Laid.hdr_eq _ ⟨memSizeAligned, none⟩ [] [] hk.rep.laid
    · have hbase := hk.base
      have hacc : Accepted n ∧ blockSize n + sizeofStructMem ≤ memSizeAligned := by
        have h8 : sizeofStructMem = 8 ∧ memSizeAligned = 16000 := ⟨rfl, rfl⟩
        have hblock : blockSize n = max ((n + 4 - 1) / 4 * 4 % 2 ^ 16) 12 := rfl
        unfold Accepted
        omega
      have hsome : allotHeap (blockSize n) n [⟨memSizeAligned, none⟩] = some (0, _) :=
        if_pos ⟨rfl, hacc.2⟩
      rw [(memMalloc_some hk.rep hacc.1 hsome).1, hbase]
      rfl

theorem freed_heap_whole_two :
    (World.after 1000 (fun _ => 0) [.malloc 10, .calloc 3 10, .free 1008, .free 1028]).live = [] ∧
      (memMalloc (World.after 1000 (fun _ => 0)
        [.malloc 10, .calloc 3 10, .free 1008, .free 1028]).heap 15992).1 = some 1008 := by
  have hes : AllSteps World.step Legal (World.boot 1000 fun _ => 0)
      [.malloc 10, .calloc 3 10, .free 1008, .free 1028] := by decide +kernel
  have hlive : (World.after 1000 (fun _ => 0)
      [.malloc 10, .calloc 3 10, .free 1008, .free 1028]).live = [] := by decide +kernel
  exact ⟨hlive, ((freed_heap_whole (by decide) hes).2 hlive).2.2 15992 (by decide) (by decide)⟩

/-- **A block freed twice in a row**: the second call only counts an illegal free, also where the
first one made the block's header part of the gap in front of it. -/
theorem double_free_counted (hram : ram % memAlignment = 0)
    (hes : AllSteps World.step Legal (World.boot ram mem) es) {b : Nat × List UInt8}
    (hb : b ∈ (World.after ram mem es).live) :
    memFree (memFree (World.after ram mem es).heap b.1) b.1 =
      (memFree (World.after ram mem es).heap b.1).incIllegal := by
  obtain ⟨ts, hk⟩ := kept_after hram hes
  generalize World.after ram mem es = w at *
  obtain ⟨xs, t, ys, rfl, hq, ht⟩ := exists_of_mem_owned (hk.mem_owned hb)
  have hused : t.used = true := by simp [Tile.used, ht]
  obtain ⟨-, he, hu⟩ := memFree_spec hk.rep hused
  obtain ⟨hle, hleast⟩ := hk.rep.laid.le
  have h8 : leastTile = 20 ∧ sizeofStructMem = 8 ∧ memSizeAligned = 16000 ∧ minSizeAligned = 12 ∧
    memAlignment = 4 := ⟨rfl, rfl, rfl, rfl, rfl⟩
  have hdvd : 4 ∣ total xs :=
    dvd_total fun x hx => (hk.rep.snug.sound x (List.mem_append_left _ hx)).aligned
  have hal : (w.heap.ram + total xs + sizeofStructMem) % memAlignment = 0 := by
    have hram4 : w.heap.ram % 4 = 0 := hk.rep.aligned
    show (w.heap.ram + total xs + 8) % 4 = 0
    omega
  rw [hq]
  generalize memFree w.heap (w.heap.ram + total xs + sizeofStructMem) = g at *
  have hr := he.ram
  have hoff : w.heap.ram + total xs + sizeofStructMem - sizeofStructMem - g.ram = total xs := by
    omega
  unfold memFree
  simp only [hoff]
  rw [if_neg (by omega), if_neg (not_not.mpr hal), if_neg (by omega), if_pos hu]

theorem double_free_counted_two :
    (memFree (memFree (World.after 1000 (fun _ => 0) [.malloc 10, .malloc 10, .free 1008]).heap
      1028) 1028).statIllegal = 1 := by
  have hes : AllSteps World.step Legal (World.boot 1000 fun _ => 0)
      [.malloc 10, .malloc 10, .free 1008] := by decide +kernel
  have hlive : (World.after 1000 (fun _ => 0) [.malloc 10, .malloc 10, .free 1008]).live =
      [(1028, List.replicate 10 0)] := by decide +kernel
  have := double_free_counted (b := (1028, List.replicate 10 0)) (by decide) hes
    (by rw [hlive]; exact List.mem_singleton.mpr rfl)
  rw [this]
  decide +kernel

end

end Stm32F407.Lwip.Mem
