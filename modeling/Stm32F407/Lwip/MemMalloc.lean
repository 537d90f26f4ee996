import Stm32F407.Lwip.MemOps

/-!
# `mem_malloc` is first-fit allocation

The scan from `lfree` finds the first tile that fits (`scan_eq`), the writes of `take` carve the
block out of it (`take_spec`), and the loop behind them finds the next free tile (`nextFree_eq`). So
`mem_malloc` gives what `allot` gives (`memMalloc_spec`), and fails only when no free tile is large
enough.
-/

namespace Stm32F407.Lwip.Mem

open Stm32F407.Lib

variable {h h' : Heap} {p q v size n : Nat} {t u : Tile} {ts xs ys : List Tile}

/-- First fit with the headers and the smallest block of `mem.c`. -/
abbrev allotHeap (size n : Nat) : List Tile → Option (Nat × List Tile) :=
  allot sizeofStructMem leastTile size n

theorem Laid.room_eq (hl : Laid h (xs ++ t :: ys)) :
    h.room (total xs) = t.len - sizeofStructMem := by
  obtain ⟨hle, hleast⟩ := hl.le
  have h8 : leastTile = 20 ∧ sizeofStructMem = 8 ∧ memSizeAligned = 16000 := ⟨rfl, rfl, rfl⟩
  unfold Heap.room
  rw [next_eq_hdr, hl.hdr_eq]
  simp only
  omega

theorem Laid.next_eq (hl : Laid h (xs ++ t :: ys)) :
    h.next (total xs) = total (xs ++ [t]) := by
  rw [next_eq_hdr, hl.hdr_eq]
  simp

theorem Laid.used_iff (hl : Laid h (xs ++ t :: ys)) : h.used (total xs) = 0 ↔ t.used = false := by
  rw [used_eq_zero_iff, hl.hdr_eq]

/-- The scan is first fit on the tiles from where it starts, and is left within as many rounds as there
are tiles and one more. -/
theorem scan_eq (hsize : 0 < size) {fuel : Nat} (hl : Laid h (xs ++ ys)) (hfuel : ys.length < fuel) :
    scan h size fuel (total xs) = some ((allotHeap size n ys).map fun r => total xs + r.1) := by
  have hw := hl.whole
  have h8 : leastTile = 20 ∧ sizeofStructMem = 8 ∧ memSizeAligned = 16000 := ⟨rfl, rfl, rfl⟩
  induction ys generalizing xs fuel with
  | nil =>
    obtain ⟨fuel, rfl⟩ := Nat.exists_eq_succ_of_ne_zero (Nat.ne_of_gt hfuel)
    rw [List.append_nil] at hw
    rw [scan, if_neg (by omega)]
    rfl
  | cons t ts ih =>
    obtain ⟨fuel, rfl⟩ := Nat.exists_eq_succ_of_ne_zero (Nat.ne_zero_of_lt hfuel)
    have hfits : h.used (total xs) = 0 ∧ size ≤ h.room (total xs) ↔
        t.Fits sizeofStructMem size := by
      obtain ⟨-, hleast⟩ := hl.le
      rw [hl.used_iff, hl.room_eq]
      unfold Tile.Fits
      exact and_congr_right fun _ => by omega
    by_cases hlt : total xs < memSizeAligned - size
    · rw [scan, if_pos hlt, if_congr hfits rfl rfl, allotHeap, allot]
      by_cases hfit : t.Fits sizeofStructMem size
      · rw [if_pos hfit, if_pos hfit]
        rfl
      · have hl' : Laid h (xs ++ [t] ++ ts) := by simpa using hl
        rw [if_neg hfit, if_neg hfit, hl.next_eq,
          ih hl' (Nat.lt_of_succ_lt_succ hfuel) hl'.whole, Option.map_map]
        congr 2
        funext r
        simp [Nat.add_assoc]
    · -- what is left is shorter than the request
      have hnone : allotHeap size n (t :: ts) = none := by
        refine allot_eq_none.mpr fun u hu hfit => ?_
        have := len_le_total hu
        have := hfit.2
        rw [total_append] at hw
        omega
      rw [scan, if_neg hlt, hnone]
      rfl

/-- The loop behind the scan finds the first free tile from where it starts. -/
theorem nextFree_eq {fuel : Nat} (hl : Laid h (xs ++ ys)) (hfuel : ys.length < fuel) :
    nextFree h fuel (total xs) = some (firstFree (total xs) ys) := by
  have hw := hl.whole
  induction ys generalizing xs fuel with
  | nil =>
    obtain ⟨fuel, rfl⟩ := Nat.exists_eq_succ_of_ne_zero (Nat.ne_of_gt hfuel)
    rw [List.append_nil] at hw
    rw [nextFree, if_neg fun hc => hc.2 hw]
    rfl
  | cons t ts ih =>
    obtain ⟨fuel, rfl⟩ := Nat.exists_eq_succ_of_ne_zero (Nat.ne_zero_of_lt hfuel)
    have hl' : Laid h (xs ++ [t] ++ ts) := by simpa using hl
    have hne : total xs ≠ memSizeAligned := by
      obtain ⟨hle, hleast⟩ := hl.le
      have h8 : leastTile = 20 := rfl
      omega
    have htot : total (xs ++ [t]) = total xs + t.len := by simp
    rw [nextFree, firstFree]
    cases ht : t.used with
    | false => rw [if_neg fun hc => hc.1 (hl.used_iff.mpr ht), if_neg (by simp)]
    | true =>
      have hused : h.used (total xs) ≠ 0 := fun hc => by
        rw [hl.used_iff, ht] at hc
        cases hc
      rw [if_pos ⟨hused, hne⟩, if_pos rfl, hl.next_eq,
        ih hl' (Nat.lt_of_succ_lt_succ hfuel) hl'.whole, htot]

/-- There are fewer tiles than rounds. -/
theorem Laid.length_lt (hl : Laid h ts) : ts.length < memSizeAligned := by
  have := length_mul_le hl.least
  rw [hl.whole] at this
  have h8 : leastTile = 20 ∧ memSizeAligned = 16000 := ⟨rfl, rfl⟩
  rw [h8.1] at this
  omega

/-- A header in the middle of a tile: the writes that split it. The tile at `C`, which ends at `E`,
is cut at `D`. -/
def splitAt (h : Heap) (C D E : Nat) : Heap :=
  let g := (((h.setUsed D 0).setNext D E).setPrev D C).setNext C D
  if E ≠ memSizeAligned then g.setPrev E D else g

theorem splitAt_spec {C D E : Nat} (hCD : C + sizeofStructMem ≤ D) (hDE : D + sizeofStructMem ≤ E)
    (hE : E ≤ memSizeAligned) :
    Edited h (splitAt h C D E) (C :: D :: if E = memSizeAligned then [] else [E]) ∧
      (splitAt h C D E).hdr C = { h.hdr C with next := D } ∧
      (splitAt h C D E).hdr D = ⟨E, C, false⟩ ∧
      (E ≠ memSizeAligned → (splitAt h C D E).hdr E = { h.hdr E with prev := D }) := by
  have h8 : sizeofStructMem = 8 ∧ memSizeAligned = 16000 := ⟨rfl, rfl⟩
  have hawayCD : Away C D := Or.inr hCD
  have hawayDC : Away D C := Or.inl hCD
  have hawayEC : Away E C := Or.inl (by omega)
  have hawayED : Away E D := Or.inl hDE
  have hawayCE : Away C E := Or.inr (by omega)
  have hawayDE : Away D E := Or.inr hDE
  have hD16 : D < 2 ^ 16 := by omega
  have hC16 : C < 2 ^ 16 := by omega
  have hE16 : E < 2 ^ 16 := by omega
  have hbase : ∀ ws : List Nat, C ∈ ws → D ∈ ws →
      Edited h ((((h.setUsed D 0).setNext D E).setPrev D C).setNext C D) ws :=
    fun ws hC hD => ((((Edited.refl h ws).setUsed hD).setNext hD).setPrev hD).setNext hC
  have hhC : ((((h.setUsed D 0).setNext D E).setPrev D C).setNext C D).hdr C =
      { h.hdr C with next := D } := by
    rw [hdr_setNext_self hD16, hdr_setPrev_away hawayDC, hdr_setNext_away hawayDC,
      hdr_setUsed_away hawayDC]
  have hhD : ((((h.setUsed D 0).setNext D E).setPrev D C).setNext C D).hdr D = ⟨E, C, false⟩ := by
    rw [hdr_setNext_away hawayCD, hdr_setPrev_self hC16, hdr_setNext_self hE16, hdr_setUsed_self]
    rfl
  unfold splitAt
  by_cases hend : E = memSizeAligned
  · simp only [hend, ne_eq, not_true_eq_false, if_false, if_true]
    rw [hend] at hhC hhD hbase
    exact ⟨hbase _ (by simp) (by simp), hhC, hhD, fun hc => hc.elim⟩
  · simp only [hend, ne_eq, not_false_eq_true, if_false, if_true]
    refine ⟨(hbase _ (by simp) (by simp)).setPrev (by simp), ?_, ?_, fun _ => ?_⟩
    · rw [hdr_setPrev_away hawayEC, hhC]
    · rw [hdr_setPrev_away hawayED, hhD]
    · rw [hdr_setPrev_self hD16, hdr_setNext_away hawayCE, hdr_setPrev_away hawayDE,
        hdr_setNext_away hawayDE, hdr_setUsed_away hawayDE]

theorem setUsed_setPrev {C E : Nat} (hCE : Away C E) (b : UInt8) (v : Nat) :
    (h.setUsed C b).setPrev E v = (h.setPrev E v).setUsed C b := by
  have h8 : sizeofStructMem = 8 := rfl
  unfold Away at hCE
  have hlo : h.ram + C + 4 ≠ h.ram + E + 2 := by omega
  have hhi : h.ram + C + 4 ≠ h.ram + E + 2 + 1 := by omega
  unfold Heap.setUsed Heap.setPrev writeHalf
  simp only
  rw [Function.update_comm hlo, Function.update_comm hhi]

/-- The tiles of a split have the headers `splitAt` writes. -/
theorem Laid.split {g : Heap} {ws : List Nat} {mid : List Tile} {l l' : Nat} {o : Option Nat}
    (hl : Laid h (xs ++ (mid ++ ys))) (hmid : total mid = l + l') (hl1 : leastTile ≤ l)
    (hl2 : leastTile ≤ l') (hedit : Edited h g ws)
    (hws : ∀ w ∈ ws, w = total xs ∨ w = total xs + l ∨ w = total xs + (l + l') ∧ ys ≠ [])
    (hC : g.hdr (total xs) = ⟨total xs + l, lastStart 0 0 xs, o.isSome⟩)
    (hD : g.hdr (total xs + l) = ⟨total xs + (l + l'), total xs, false⟩)
    (hE : ys ≠ [] → g.hdr (total xs + (l + l')) =
      { h.hdr (total xs + (l + l')) with prev := total xs + l }) :
    Laid g (xs ++ ([⟨l, o⟩, ⟨l', none⟩] ++ ys)) := by
  have h8 : leastTile = 20 ∧ sizeofStructMem = 8 := ⟨rfl, rfl⟩
  refine @Laid.edited h g xs ys mid [⟨l, o⟩, ⟨l', none⟩] ws hl hedit ?_ ?_ ?_ ?_ ?_
  · intro w hw
    rw [hmid]
    rcases hws w hw with rfl | rfl | ⟨rfl, hys⟩
    · exact ⟨le_rfl, Or.inl (by omega)⟩
    · exact ⟨by omega, Or.inl (by omega)⟩
    · exact ⟨by omega, Or.inr ⟨rfl, hys⟩⟩
  · rw [hmid]
    simp
  · simp only [List.forall_mem_cons, List.not_mem_nil, IsEmpty.forall_iff, implies_true, and_true]
    exact ⟨hl1, hl2⟩
  · exact ⟨hC, by rw [hD]; simp [Nat.add_assoc], trivial⟩
  · intro hys
    rw [hmid, hE hys]
    rfl

/-- Where the headers of a split are. -/
theorem mem_starts_split {l l' : Nat} {o : Option Nat} {w : Nat}
    (hw : w = total xs ∨ w = total xs + l ∨ w = total xs + (l + l') ∧ ys ≠ []) :
    w ∈ starts 0 (xs ++ ([⟨l, o⟩, ⟨l', none⟩] ++ ys)) := by
  rw [mem_starts_append, Nat.zero_add]
  refine Or.inr ?_
  simp only [List.cons_append, List.nil_append, starts, List.mem_cons]
  rcases hw with rfl | rfl | ⟨rfl, hys⟩
  · exact Or.inl rfl
  · exact Or.inr (Or.inl rfl)
  · cases ys with
    | nil => exact absurd rfl hys
    | cons y ys =>
      rw [← Nat.add_assoc]
      exact Or.inr (Or.inr List.mem_cons_self)

/-- **`take` carves the block out of the tile.** -/
theorem take_spec (n : Nat) (hl : Laid h (xs ++ t :: ys)) (hsize : minSizeAligned ≤ size) :
    Laid (take h (total xs) size) (xs ++ (carve sizeofStructMem leastTile size n t ++ ys)) ∧
      Edited h (take h (total xs) size)
        (starts 0 (xs ++ (carve sizeofStructMem leastTile size n t ++ ys))) ∧
      (take h (total xs) size).lfree = h.lfree ∧
      (take h (total xs) size).statUsed =
        (h.statUsed + usedBytes (carve sizeofStructMem leastTile size n t)) % 2 ^ 16 := by
  obtain ⟨hle, hleast⟩ := hl.le
  have h8 : leastTile = 20 ∧ sizeofStructMem = 8 ∧ memSizeAligned = 16000 ∧ minSizeAligned = 12 :=
    ⟨rfl, rfl, rfl, rfl⟩
  have hnext : h.next (total xs) = total xs + t.len := by rw [next_eq_hdr, hl.hdr_eq]
  have hlm : Laid h (xs ++ ([t] ++ ys)) := hl
  have hmid : total [t] = t.len := by simp
  unfold take carve
  rw [hl.room_eq]
  by_cases hsplit : size + sizeofStructMem + leastTile ≤ t.len
  · rw [if_pos (by omega), if_pos hsplit]
    have hmod : (total xs + sizeofStructMem + size) % 2 ^ 16 =
        total xs + (size + sizeofStructMem) := by omega
    rw [hmod, hnext]
    generalize hD : total xs + (size + sizeofStructMem) = D
    have hCD : total xs + sizeofStructMem ≤ D := by omega
    have hDE : D + sizeofStructMem ≤ total xs + t.len := by omega
    obtain ⟨hedit, hhC, hhD, hhE⟩ := @splitAt_spec h _ _ _ hCD hDE hle
    have hnextD : ((((h.setUsed D 0).setNext D (total xs + t.len)).setPrev D (total xs)).setNext
        (total xs) D |>.setUsed (total xs) 1).next D = total xs + t.len := by
      rw [next_eq_hdr, hdr_setUsed_away (Or.inr hCD), hdr_setNext_away (Or.inr hCD),
        hdr_setPrev_self (by omega), hdr_setNext_self (by omega)]
    -- the writes are those of the split and the mark of the block
    have htake : (if total xs + t.len ≠ memSizeAligned then
          (((((h.setUsed D 0).setNext D (total xs + t.len)).setPrev D (total xs)).setNext
            (total xs) D).setUsed (total xs) 1).setPrev (total xs + t.len) D
        else ((((h.setUsed D 0).setNext D (total xs + t.len)).setPrev D (total xs)).setNext
            (total xs) D).setUsed (total xs) 1) =
        (splitAt h (total xs) D (total xs + t.len)).setUsed (total xs) 1 := by
      unfold splitAt
      simp only
      split_ifs
      · rw [setUsed_setPrev (Or.inr (by omega))]
      · rfl
    simp only [hnextD, htake]
    have hedit' := hedit.setUsed (b := 1) List.mem_cons_self
    have hend := hl.end_iff
    have hlen : size + sizeofStructMem + (t.len - (size + sizeofStructMem)) = t.len := by omega
    have hws : ∀ w ∈ total xs :: D :: (if total xs + t.len = memSizeAligned then []
        else [total xs + t.len]), w = total xs ∨ w = total xs + (size + sizeofStructMem) ∨
          w = total xs + (size + sizeofStructMem + (t.len - (size + sizeofStructMem))) ∧ ys ≠ [] := by
      intro w hw
      rw [hlen, hD]
      rcases List.mem_cons.mp hw with rfl | hw
      · exact Or.inl rfl
      rcases List.mem_cons.mp hw with rfl | hw
      · exact Or.inr (Or.inl rfl)
      · split_ifs at hw with he
        · cases hw
        · exact Or.inr (Or.inr ⟨List.mem_singleton.mp hw, fun hys => he (hend.mpr hys)⟩)
    have hlaid : Laid ((splitAt h (total xs) D (total xs + t.len)).setUsed (total xs) 1)
        (xs ++ ([⟨size + sizeofStructMem, some n⟩, ⟨t.len - (size + sizeofStructMem), none⟩] ++
          ys)) := by
      refine hlm.split (by rw [hlen, hmid]) (by omega) (by omega) hedit' hws ?_ ?_ ?_
      · rw [hdr_setUsed_self, hhC, hl.hdr_eq, hD]
        rfl
      · rw [hD, hlen, hdr_setUsed_away (Or.inr hCD), hhD]
      · intro hys
        rw [hlen, hD, hdr_setUsed_away (Or.inr (by omega)), hhE fun he => hys (hend.mp he)]
    refine ⟨⟨hlaid.tiled, hlaid.whole, hlaid.sentinel, hlaid.least⟩, ?_, ?_, ?_⟩
    · have := hedit'.mono fun w hw => mem_starts_split (o := some n) (hws w hw)
      exact ⟨this.ram, this.away, this.mem⟩
    · show (splitAt h (total xs) D (total xs + t.len)).lfree = h.lfree
      unfold splitAt
      simp only
      split_ifs <;> rfl
    · have hstat : (splitAt h (total xs) D (total xs + t.len)).statUsed = h.statUsed := by
        unfold splitAt
        simp only
        split_ifs <;> rfl
      show ((splitAt h (total xs) D (total xs + t.len)).statUsed + (size + sizeofStructMem)) %
        2 ^ 16 = _
      rw [hstat]
      simp [usedBytes_cons]
  · rw [if_neg (by omega), if_neg hsplit]
    have hedit : Edited h (h.setUsed (total xs) 1) [total xs] :=
      (Edited.refl h _).setUsed (List.mem_singleton.mpr rfl)
    have hnext' : (h.setUsed (total xs) 1).next (total xs) = total xs + t.len := by
      rw [next_eq_hdr, hdr_setUsed_self, hl.hdr_eq]
    have hlaid : Laid (h.setUsed (total xs) 1) (xs ++ ([⟨t.len, some n⟩] ++ ys)) := by
      refine @Laid.edited h _ xs ys [t] [⟨t.len, some n⟩] _ hlm hedit ?_ rfl ?_ ?_ ?_
      · intro w hw
        rw [List.mem_singleton.mp hw, hmid]
        exact ⟨le_rfl, Or.inl (by omega)⟩
      · simpa using hleast
      · refine ⟨?_, trivial⟩
        rw [hdr_setUsed_self, hl.hdr_eq]
        rfl
      · intro hys
        rw [hmid, hdr_setUsed_away (Or.inr (by omega))]
        cases ys with
        | nil => exact absurd rfl hys
        | cons u us => rw [hl.hdr_eq_snd]; rfl
    simp only [hnext', Nat.add_sub_cancel_left]
    refine ⟨⟨hlaid.tiled, hlaid.whole, hlaid.sentinel, hlaid.least⟩, ?_, rfl, ?_⟩
    · have hw : ∀ w ∈ [total xs], w ∈ starts 0 (xs ++ ([⟨t.len, some n⟩] ++ ys)) := by
        simpa using mem_starts_cons
      have := hedit.mono hw
      exact ⟨this.ram, this.away, this.mem⟩
    · show (h.statUsed + t.len) % 2 ^ 16 = _
      simp [usedBytes_cons]

/-! ## The whole function -/

/-- The block size for a request: aligned, and not below the smallest. -/
def blockSize (sizeIn : Nat) : Nat := max (lwipMemAlignSize sizeIn % 2 ^ 16) minSizeAligned

/-- The requests that get as far as the heap. -/
def Accepted (sizeIn : Nat) : Prop :=
  0 < sizeIn ∧ blockSize sizeIn ≤ memSizeAligned ∧ sizeIn ≤ blockSize sizeIn

instance Accepted.instDecidable (sizeIn : Nat) : Decidable (Accepted sizeIn) :=
  inferInstanceAs (Decidable (_ ∧ _ ∧ _))

theorem blockSize_dvd (sizeIn : Nat) : memAlignment ∣ blockSize sizeIn := by
  show 4 ∣ max ((sizeIn + 4 - 1) / 4 * 4 % 2 ^ 16) 12
  omega

theorem Accepted.request {sizeIn : Nat} (ha : Accepted sizeIn) :
    Request sizeofStructMem leastTile memAlignment (blockSize sizeIn) sizeIn := by
  refine ⟨?_, Nat.dvd_add (blockSize_dvd sizeIn) (by decide), ha.2.2⟩
  have := Nat.le_max_right (lwipMemAlignSize sizeIn % 2 ^ 16) minSizeAligned
  unfold leastTile blockSize
  omega

/-- A request that is not accepted leaves the heap alone. -/
theorem memMalloc_refused {sizeIn : Nat} (ha : ¬ Accepted sizeIn) :
    memMalloc h sizeIn = (none, h) := by
  unfold memMalloc
  by_cases h0 : sizeIn = 0
  · rw [if_pos h0]
  · rw [if_neg h0]
    refine if_pos ?_
    by_contra hc
    rw [not_or, Nat.not_lt, Nat.not_lt] at hc
    exact ha ⟨Nat.pos_of_ne_zero h0, hc.1, hc.2⟩

/-- The scan from `lfree` sees every tile that could fit. -/
theorem scan_lfree (hr : Rep h ts) (hsize : 0 < size) {fuel : Nat} (hfuel : ts.length < fuel) :
    scan h size fuel h.lfree = some ((allotHeap size n ts).map Prod.fst) := by
  obtain ⟨xs, ys, rfl, hused, hfirst, -⟩ := exists_firstFree 0 ts
  rw [Nat.zero_add] at hfirst
  have hno : ∀ x ∈ xs, ¬ x.Fits sizeofStructMem size := fun x hx hf => by
    have := hused x hx
    rw [hf.1] at this
    cases this
  have hfuel' : ys.length < fuel := by
    rw [List.length_append] at hfuel
    omega
  rw [hr.lfree, hfirst, scan_eq (n := n) hsize hr.laid hfuel', allotHeap, allot_append hno,
    Option.map_map]
  rfl

theorem Accepted.not_refused {sizeIn : Nat} (ha : Accepted sizeIn) :
    ¬ (memSizeAligned < blockSize sizeIn ∨ blockSize sizeIn < sizeIn) := by
  rw [not_or, Nat.not_lt, Nat.not_lt]
  exact ha.2

/-- **`mem_malloc` is first fit**: it fails, leaving the heap as it is, when no tile fits. -/
theorem memMalloc_none {sizeIn : Nat} (hr : Rep h ts) (ha : Accepted sizeIn)
    (hnone : allotHeap (blockSize sizeIn) sizeIn ts = none) :
    memMalloc h sizeIn = (none, h.incErr) := by
  have hsize : 0 < blockSize sizeIn := Nat.lt_of_lt_of_le ha.1 ha.2.2
  have hscan := @scan_lfree h (blockSize sizeIn) sizeIn ts hr hsize _ hr.laid.length_lt
  have hok := ha.not_refused
  rw [hnone, Option.map_none] at hscan
  unfold memMalloc
  unfold blockSize at hscan hok
  simp only [if_neg (Nat.ne_of_gt ha.1), if_neg hok, hscan, Option.join_some]

theorem memMalloc_found {sizeIn : Nat} (ha : Accepted sizeIn)
    (hscan : scan h (blockSize sizeIn) memSizeAligned h.lfree = some (some q)) :
    memMalloc h sizeIn = (some (h.ram + q + sizeofStructMem),
      if q = h.lfree then
        { take h q (blockSize sizeIn) with
          lfree := (nextFree (take h q (blockSize sizeIn)) memSizeAligned q).getD q }
      else take h q (blockSize sizeIn)) := by
  have hok := ha.not_refused
  unfold memMalloc
  unfold blockSize at hscan hok ⊢
  simp only [if_neg (Nat.ne_of_gt ha.1), if_neg hok, hscan, Option.join_some]

theorem Laid.setLfree (hl : Laid h ts) (p : Nat) : Laid { h with lfree := p } ts :=
  ⟨hl.tiled, hl.whole, hl.sentinel, hl.least⟩

theorem Laid.rep (hl : Laid h ts) (hstat : h.statUsed = usedBytes ts) (hsnug : SnugHeap ts)
    (hram : h.ram % memAlignment = 0) : Rep { h with lfree := firstFree 0 ts } ts :=
  ⟨hl.setLfree _, rfl, hstat, hsnug, hram⟩

theorem Edited.setLfree {ws : List Nat} (he : Edited h h' ws) (p : Nat) :
    Edited h { h' with lfree := p } ws :=
  ⟨he.ram, he.away, he.mem⟩

/-- ... and it takes the first tile that does. -/
theorem memMalloc_some {sizeIn : Nat} (hr : Rep h ts) (ha : Accepted sizeIn) {us : List Tile}
    (hsome : allotHeap (blockSize sizeIn) sizeIn ts = some (q, us)) :
    (memMalloc h sizeIn).1 = some (h.ram + q + sizeofStructMem) ∧
      Rep (memMalloc h sizeIn).2 us ∧ Edited h (memMalloc h sizeIn).2 (starts 0 us) := by
  have hsize : 0 < blockSize sizeIn := Nat.lt_of_lt_of_le ha.1 ha.2.2
  have hscan := @scan_lfree h (blockSize sizeIn) sizeIn ts hr hsize _ hr.laid.length_lt
  rw [hsome] at hscan
  have hmalloc := memMalloc_found ha hscan
  have hsnug := hr.snug.allot ha.request hsome
  obtain ⟨xs, t, ys, rfl, rfl, hno, hfit, rfl⟩ := allot_eq_some hsome
  have hmin : minSizeAligned ≤ blockSize sizeIn := Nat.le_max_right _ _
  obtain ⟨hl, hedit, hlf, hstat⟩ := take_spec sizeIn hr.laid hmin
  rw [hmalloc]
  generalize take h (total xs) (blockSize sizeIn) = g at *
  generalize hcs : carve sizeofStructMem leastTile (blockSize sizeIn) sizeIn t = cs at *
  have hused : g.statUsed = usedBytes (xs ++ (cs ++ ys)) := by
    have hbound := usedBytes_le_total (xs ++ (cs ++ ys))
    rw [hl.whole] at hbound
    have hbefore := hr.stat
    rw [usedBytes_append, usedBytes_cons, if_neg (by simp [hfit.1])] at hbefore
    rw [usedBytes_append, usedBytes_append] at hbound ⊢
    have h16 : memSizeAligned = 16000 := rfl
    rw [hstat, hbefore]
    omega
  have hpos : ∀ x ∈ xs, 0 < x.len := fun x hx =>
    Nat.lt_of_lt_of_le (by decide) (hr.laid.least x (List.mem_append_left _ hx))
  have hram : g.ram % memAlignment = 0 := by
    rw [hedit.ram]
    exact hr.aligned
  have hlfree := hr.lfree
  refine ⟨rfl, ?_⟩
  by_cases hlow : total xs = h.lfree
  · -- the lowest free tile was taken: the next one is looked for
    have hfuel : (cs ++ ys).length < memSizeAligned := by
      have := hl.length_lt
      rw [List.length_append] at this
      omega
    have hnext : nextFree g memSizeAligned (total xs) = some (firstFree 0 (xs ++ (cs ++ ys))) := by
      have := @firstFree_append_of_le 0 xs (t :: ys) (cs ++ ys) hpos
        (by rw [Nat.zero_add, ← hlfree, hlow])
      rw [nextFree_eq hl hfuel, this, Nat.zero_add]
    rw [if_pos hlow, hnext, Option.getD_some]
    exact ⟨hl.rep hused hsnug hram, hedit.setLfree _⟩
  · have hle := firstFree_le_of_free 0 xs ys hfit.1
    have hff : firstFree 0 (xs ++ (cs ++ ys)) = firstFree 0 (xs ++ t :: ys) :=
      firstFree_append_of_lt (by omega)
    rw [if_neg hlow]
    exact ⟨⟨hl, by rw [hlf, hlfree, hff], hused, hsnug, hram⟩, hedit⟩

/-- The loops of `mem_malloc` for a block of `size` bytes are left after at most `rounds` rounds, which
is less than they are given. -/
structure LoopsEnd (h : Heap) (size rounds : Nat) : Prop where
  scan : ∃ o, ∀ fuel, rounds ≤ fuel → scan h size fuel h.lfree = some o
  nextFree : ∀ ptr, Mem.scan h size rounds h.lfree = some (some ptr) →
    ∃ cur, ∀ fuel, rounds ≤ fuel → nextFree (take h ptr size) fuel ptr = some cur
  enough : rounds ≤ memSizeAligned

theorem carve_length_le (hdr least size n : Nat) (t : Tile) :
    (carve hdr least size n t).length ≤ 2 := by
  unfold carve
  split_ifs <;> simp

/-- Each loop sees every header once at most, and splitting a block adds one. -/
theorem Rep.loopsEnd {sizeIn : Nat} (hr : Rep h ts) (ha : Accepted sizeIn) :
    LoopsEnd h (blockSize sizeIn) (ts.length + 2) := by
  have hsize : 0 < blockSize sizeIn := Nat.lt_of_lt_of_le ha.1 ha.2.2
  have hscan : ∀ fuel, ts.length + 2 ≤ fuel → scan h (blockSize sizeIn) fuel h.lfree =
      some ((allotHeap (blockSize sizeIn) sizeIn ts).map Prod.fst) :=
    fun fuel hfuel => scan_lfree hr hsize (by omega)
  refine ⟨⟨_, hscan⟩, fun ptr hptr => ?_, ?_⟩
  · rw [hscan _ le_rfl, Option.some.injEq, Option.map_eq_some_iff] at hptr
    obtain ⟨⟨q, us⟩, hsome, rfl⟩ := hptr
    obtain ⟨xs, t, ys, rfl, rfl, -, -, -⟩ := allot_eq_some hsome
    have hmin : minSizeAligned ≤ blockSize sizeIn := Nat.le_max_right _ _
    obtain ⟨hl, -⟩ := take_spec sizeIn hr.laid hmin
    refine ⟨_, fun fuel hfuel => nextFree_eq hl ?_⟩
    have := carve_length_le sizeofStructMem leastTile (blockSize sizeIn) sizeIn t
    rw [List.length_append, List.length_cons] at hfuel
    rw [List.length_append]
    omega
  · have := length_mul_le hr.laid.least
    rw [hr.laid.whole] at this
    have h8 : leastTile = 20 ∧ memSizeAligned = 16000 := ⟨rfl, rfl⟩
    rw [h8.1] at this
    omega

end Stm32F407.Lwip.Mem
