import Stm32F407.Lwip.MemMalloc

/-!
# `mem_trim` shrinks a block, `mem_init` makes the heap

Both branches of `mem_trim` that write put one header in the middle of what they cut (`splitAt`): the
tile and the free one behind it, whose header moves, or the tile alone. Its other branches leave the
heap as it is, which is what shrinking does there too, so one statement covers all of them
(`memTrim_spec`).
-/

namespace Stm32F407.Lwip.Mem

open Stm32F407.Lib

variable {h h' : Heap} {p q v size n newSize : Nat} {t u : Tile} {ts xs ys mid : List Tile}

@[simp] theorem splitAt_lfree (C D E : Nat) : (splitAt h C D E).lfree = h.lfree := by
  unfold splitAt
  simp only
  split_ifs <;> rfl

@[simp] theorem splitAt_statUsed (C D E : Nat) : (splitAt h C D E).statUsed = h.statUsed := by
  unfold splitAt
  simp only
  split_ifs <;> rfl

/-- The writes of `mem_trim`, which reads the end of the new tile back. -/
theorem splitAt_eq {C D E : Nat} (hCD : C + sizeofStructMem ≤ D) (hC : C < 2 ^ 16) (hE : E < 2 ^ 16) :
    (let g := (((h.setUsed D 0).setNext D E).setPrev D C).setNext C D
      if g.next D ≠ memSizeAligned then g.setPrev (g.next D) D else g) = splitAt h C D E := by
  have hnext : ((((h.setUsed D 0).setNext D E).setPrev D C).setNext C D).next D = E := by
    rw [next_eq_hdr, hdr_setNext_away (Or.inr hCD), hdr_setPrev_self hC, hdr_setNext_self hE]
  unfold splitAt
  simp only [hnext]

/-- The tiles after a split of a tile in use, or of one and the free one behind it. -/
theorem Laid.splitAt {l l' : Nat} (n : Nat) (hl : Laid h (xs ++ (mid ++ ys)))
    (hmid : total mid = l + l') (hl1 : leastTile ≤ l) (hl2 : leastTile ≤ l')
    (hprev : (h.hdr (total xs)).prev = lastStart 0 0 xs) (hused : (h.hdr (total xs)).used = true) :
    Laid (splitAt h (total xs) (total xs + l) (total xs + (l + l')))
        (xs ++ ([⟨l, some n⟩, ⟨l', none⟩] ++ ys)) ∧
      Edited h (splitAt h (total xs) (total xs + l) (total xs + (l + l')))
        (starts 0 (xs ++ ([⟨l, some n⟩, ⟨l', none⟩] ++ ys))) := by
  have h8 : leastTile = 20 ∧ sizeofStructMem = 8 := ⟨rfl, rfl⟩
  have hw := hl.whole
  rw [total_append, total_append, hmid] at hw
  have hend : total xs + (l + l') = memSizeAligned ↔ ys = [] := by
    constructor
    · intro he
      cases ys with
      | nil => rfl
      | cons y ys =>
        have := hl.least y (by simp)
        rw [total_cons] at hw
        omega
    · rintro rfl
      rw [total_nil] at hw
      omega
  obtain ⟨hedit, hhC, hhD, hhE⟩ := @splitAt_spec h (total xs) (total xs + l) (total xs + (l + l'))
    (by omega) (by omega) (by omega)
  have hws : ∀ w ∈ total xs :: (total xs + l) :: (if total xs + (l + l') = memSizeAligned then []
      else [total xs + (l + l')]), w = total xs ∨ w = total xs + l ∨
        w = total xs + (l + l') ∧ ys ≠ [] := by
    intro w hw
    rcases List.mem_cons.mp hw with rfl | hw
    · exact Or.inl rfl
    rcases List.mem_cons.mp hw with rfl | hw
    · exact Or.inr (Or.inl rfl)
    · split_ifs at hw with he
      · cases hw
      · exact Or.inr (Or.inr ⟨List.mem_singleton.mp hw, fun hys => he (hend.mpr hys)⟩)
  refine ⟨hl.split hmid hl1 hl2 hedit hws ?_ hhD fun hys => hhE fun he => hys (hend.mp he),
    hedit.mono fun w hw => mem_starts_split (hws w hw)⟩
  rw [hhC]
  simp only [hprev, hused]
  rfl

theorem Edited.ofLfree {ws : List Nat} {p : Nat} (he : Edited { h with lfree := p } h' ws) :
    Edited h h' ws :=
  ⟨he.ram, he.away, he.mem⟩

/-- What is left of the heap once the tiles, `lfree` and the statistics are right. -/
theorem Laid.trim {g : Heap} {d : Nat} (hr : Rep h ts) (hl : Laid g ys) (he : Edited h g (starts 0 ys))
    (hlf : g.lfree = firstFree 0 ys) (hst : g.statUsed = h.statUsed)
    (hd : usedBytes ys + d = usedBytes ts) (hsnug : SnugHeap ys) :
    Rep (g.decUsed d) ys ∧ Edited h (g.decUsed d) (starts 0 ys) := by
  refine ⟨⟨⟨hl.tiled, hl.whole, hl.sentinel, hl.least⟩, hlf, ?_, hsnug, ?_⟩,
    ⟨he.ram, he.away, he.mem⟩⟩
  · have hbound := usedBytes_le_total ts
    have h16 : memSizeAligned = 16000 := rfl
    rw [hr.laid.whole] at hbound
    show (g.statUsed + 2 ^ 16 - d) % 2 ^ 16 = usedBytes ys
    rw [hst, hr.stat]
    omega
  · show g.ram % memAlignment = 0
    rw [he.ram]
    exact hr.aligned

/-- The sizes `mem_trim` accepts. -/
def TrimSize (newSize : Nat) : Prop :=
  blockSize newSize ≤ memSizeAligned ∧ newSize ≤ blockSize newSize

instance TrimSize.instDecidable (newSize : Nat) : Decidable (TrimSize newSize) :=
  inferInstanceAs (Decidable (_ ∧ _))

theorem TrimSize.request (ha : TrimSize newSize) :
    Request sizeofStructMem leastTile memAlignment (blockSize newSize) newSize := by
  refine ⟨?_, Nat.dvd_add (blockSize_dvd newSize) (by decide), ha.2⟩
  have := Nat.le_max_right (lwipMemAlignSize newSize % 2 ^ 16) minSizeAligned
  unfold leastTile blockSize
  omega

/-- A size that is not accepted leaves the heap alone. -/
theorem memTrim_refused (ha : ¬ TrimSize newSize) (rmem : Nat) :
    memTrim h rmem newSize = (none, h) := by
  unfold memTrim
  refine if_pos ?_
  by_contra hc
  rw [not_or, Nat.not_lt, Nat.not_lt] at hc
  exact ha hc

theorem TrimSize.not_refused (ha : TrimSize newSize) :
    ¬ (memSizeAligned < blockSize newSize ∨ blockSize newSize < newSize) := by
  rw [not_or, Nat.not_lt, Nat.not_lt]
  exact ha

theorem ite_lfree {c : Prop} [Decidable c] (p : Nat) :
    (if c then { h with lfree := p } else h) = { h with lfree := if c then p else h.lfree } := by
  split_ifs <;> rfl

/-- The branches behind the checks, at a tile. -/
theorem memTrim_eq (hl : Laid h (xs ++ t :: ys)) (ha : TrimSize newSize) :
    memTrim h (h.ram + total xs + sizeofStructMem) newSize =
      let rmem := h.ram + total xs + sizeofStructMem
      let ptr2 := total xs + (blockSize newSize + sizeofStructMem)
      let d := t.len - (blockSize newSize + sizeofStructMem)
      if t.len < blockSize newSize + sizeofStructMem then (none, h)
      else if blockSize newSize + sizeofStructMem = t.len then (some rmem, h)
      else if h.used (total xs + t.len) = 0 then
        (some rmem, (splitAt { h with
          lfree := if h.lfree = total xs + t.len then ptr2 else h.lfree } (total xs) ptr2
            (h.next (total xs + t.len))).decUsed d)
      else if blockSize newSize + sizeofStructMem + leastTile ≤ t.len then
        (some rmem, (splitAt { h with
          lfree := if ptr2 < h.lfree then ptr2 else h.lfree } (total xs) ptr2
            (total xs + t.len)).decUsed d)
      else (some rmem, h) := by
  have hok := ha.not_refused
  obtain ⟨hle, hleast⟩ := hl.le
  have h8 : leastTile = 20 ∧ sizeofStructMem = 8 ∧ memSizeAligned = 16000 ∧ minSizeAligned = 12 :=
    ⟨rfl, rfl, rfl, rfl⟩
  have hnext : h.next (total xs) = total xs + t.len := by rw [next_eq_hdr, hl.hdr_eq]
  have hoff : h.ram + total xs + sizeofStructMem - sizeofStructMem - h.ram = total xs := by omega
  have hsize : ((total xs + t.len + 2 ^ 16 - total xs) % 2 ^ 16 + 2 ^ 16 - sizeofStructMem) %
      2 ^ 16 = t.len - sizeofStructMem := by omega
  have hE : h.next (total xs + t.len) < 2 ^ 16 := UInt16.toNat_lt _
  generalize hN : blockSize newSize = N at hok
  have hin : ¬ (h.ram + total xs + sizeofStructMem < h.ram ∨
    h.ram + memSizeAligned ≤ h.ram + total xs + sizeofStructMem) := by omega
  unfold memTrim
  unfold blockSize at hN
  simp only [hN, if_neg hok, if_neg hin, hoff, hnext, hsize]
  by_cases hlt : t.len < N + sizeofStructMem
  · rw [if_pos (by omega), if_pos hlt]
  rw [if_neg (by omega), if_neg hlt]
  by_cases heq : N + sizeofStructMem = t.len
  · rw [if_pos (by omega), if_pos heq]
  rw [if_neg (by omega), if_neg heq]
  have hmod : (total xs + sizeofStructMem + N) % 2 ^ 16 = total xs + (N + sizeofStructMem) := by
    omega
  have hd : t.len - sizeofStructMem - N = t.len - (N + sizeofStructMem) := by omega
  have hsplit : N + sizeofStructMem + minSizeAligned ≤ t.len - sizeofStructMem ↔
      N + sizeofStructMem + leastTile ≤ t.len := by omega
  have hCD : total xs + sizeofStructMem ≤ total xs + (N + sizeofStructMem) := by omega
  have hC : total xs < 2 ^ 16 := by omega
  rw [hmod, hd, if_congr hsplit rfl rfl, ite_lfree, ite_lfree]
  by_cases hfree : h.used (total xs + t.len) = 0
  · rw [if_pos hfree, if_pos hfree, ← splitAt_eq hCD hC hE]
  · have hnext' : ∀ p, Heap.next { h with lfree := p } (total xs) = total xs + t.len :=
      fun _ => hnext
    rw [if_neg hfree, if_neg hfree, ← splitAt_eq hCD hC (by omega), hnext']

/-- The headers do not know how much of a block its owner asked for. -/
theorem Rep.reown (hr : Rep h (xs ++ t :: ys)) (ht : t.used = true)
    (hsnug : SnugHeap (xs ++ ⟨t.len, some n⟩ :: ys)) : Rep h (xs ++ ⟨t.len, some n⟩ :: ys) := by
  have hl : Laid h (xs ++ ([⟨t.len, some n⟩] ++ ys)) := by
    have hlm : Laid h (xs ++ ([t] ++ ys)) := hr.laid
    obtain ⟨-, hleast⟩ := hr.laid.le
    refine @Laid.edited h h xs ys [t] [⟨t.len, some n⟩] [] hlm (Edited.refl h _) (by simp) rfl
      (by simpa using hleast) ⟨?_, trivial⟩ fun hys => ?_
    · rw [hr.laid.hdr_eq, ht]
      rfl
    · cases ys with
      | nil => exact absurd rfl hys
      | cons u us =>
        have hmid : total [t] = t.len := by simp
        rw [hmid, hr.laid.hdr_eq_snd]
        rfl
  refine ⟨hl, ?_, ?_, hsnug, hr.aligned⟩
  · rw [hr.lfree]
    refine firstFree_append_congr ?_
    rw [firstFree, firstFree, ht]
    rfl
  · rw [hr.stat, usedBytes_append, usedBytes_append, usedBytes_cons, usedBytes_cons, ht]
    rfl

/-- A block cannot grow. -/
theorem memTrim_grow (hl : Laid h (xs ++ t :: ys)) (ha : TrimSize newSize)
    (hgrow : t.len < blockSize newSize + sizeofStructMem) :
    memTrim h (h.ram + total xs + sizeofStructMem) newSize = (none, h) := by
  rw [memTrim_eq hl ha]
  exact if_pos hgrow

/-- **`mem_trim` of a tile in use shrinks it.** -/
theorem memTrim_spec (hr : Rep h (xs ++ t :: ys)) (ht : t.used = true) (ha : TrimSize newSize)
    (hfit : blockSize newSize + sizeofStructMem ≤ t.len) :
    (memTrim h (h.ram + total xs + sizeofStructMem) newSize).1 =
        some (h.ram + total xs + sizeofStructMem) ∧
      Rep (memTrim h (h.ram + total xs + sizeofStructMem) newSize).2
        (xs ++ trimmed sizeofStructMem leastTile (blockSize newSize) newSize t ys) ∧
      Edited h (memTrim h (h.ram + total xs + sizeofStructMem) newSize).2
        (starts 0 (xs ++ trimmed sizeofStructMem leastTile (blockSize newSize) newSize t ys)) := by
  have hsnug := hr.snug.trimmed ha.request hfit
  have hl := hr.laid
  obtain ⟨hle, hleast⟩ := hl.le
  have h8 : leastTile = 20 ∧ sizeofStructMem = 8 ∧ memSizeAligned = 16000 := ⟨rfl, rfl, rfl⟩
  have hpos : ∀ x ∈ xs, 0 < x.len := fun x hx =>
    Nat.lt_of_lt_of_le (by decide) (hl.least x (List.mem_append_left _ hx))
  have hprev : (h.hdr (total xs)).prev = lastStart 0 0 xs := by rw [hl.hdr_eq]
  have hused : (h.hdr (total xs)).used = true := by rw [hl.hdr_eq, ht]
  have hmin : leastTile ≤ blockSize newSize + sizeofStructMem := ha.request.least_le
  rw [memTrim_eq hl ha]
  generalize blockSize newSize = N at *
  simp only
  rw [if_neg (Nat.not_lt.mpr hfit)]
  by_cases heq : N + sizeofStructMem = t.len
  · -- nothing to give back
    rw [if_pos heq]
    rw [trimmed_of_eq (by decide) heq] at hsnug ⊢
    exact ⟨rfl, hr.reown ht hsnug, Edited.refl h _⟩
  rw [if_neg heq]
  have hd : N + sizeofStructMem + (t.len - (N + sizeofStructMem)) = t.len := by omega
  by_cases hfree : h.used (total xs + t.len) = 0
  · rw [if_pos hfree]
    -- the header of the free tile behind moves to the front
    cases ys with
    | nil =>
      rw [hl.end_iff.mpr rfl, used_eq_zero_iff, hl.sentinel] at hfree
      cases hfree
    | cons u us =>
      have hu : u.used = false := by
        rw [used_eq_zero_iff, hl.hdr_eq_snd] at hfree
        exact hfree
      have hul := hl.least u (by simp)
      have hnext : h.next (total xs + t.len) =
          total xs + (N + sizeofStructMem + (t.len - (N + sizeofStructMem) + u.len)) := by
        rw [next_eq_hdr, hl.hdr_eq_snd]
        simp only
        omega
      rw [trimmed, if_pos hu] at hsnug ⊢
      have hlm : Laid h (xs ++ ([t, u] ++ us)) := hl
      have hmid : total [t, u] =
          N + sizeofStructMem + (t.len - (N + sizeofStructMem) + u.len) := by
        simp only [total_cons, total_nil]
        omega
      obtain ⟨hsl, hse⟩ := (hlm.setLfree (if h.lfree = total xs + t.len then
        total xs + (N + sizeofStructMem) else h.lfree)).splitAt newSize hmid hmin (by omega)
        hprev hused
      rw [hnext]
      refine ⟨rfl, Laid.trim hr hsl hse.ofLfree ?_ (splitAt_statUsed ..) ?_ hsnug⟩
      · have := firstFree_move 0 (N + sizeofStructMem) (t.len - (N + sizeofStructMem) + u.len)
          newSize xs us hpos ht hu
        rw [Nat.zero_add] at this
        rw [splitAt_lfree, this, hr.lfree]
      · simp only [usedBytes_append, usedBytes_cons, ht, hu, used_some, used_none, if_true,
          Bool.false_eq_true, if_false]
        omega
  · rw [if_neg hfree]
    have hhead : ∀ u ∈ ys.head?, u.used = true := by
      intro u hu
      obtain ⟨us, rfl⟩ := List.head?_eq_some_iff.mp hu
      rw [used_eq_zero_iff, hl.hdr_eq_snd] at hfree
      simpa using hfree
    rw [trimmed_of_used hhead] at hsnug ⊢
    unfold carve at hsnug ⊢
    by_cases hsplit : N + sizeofStructMem + leastTile ≤ t.len
    · -- a header of its own for the rest
      rw [if_pos hsplit] at hsnug
      rw [if_pos hsplit, if_pos hsplit]
      have hlm : Laid h (xs ++ ([t] ++ ys)) := hl
      have hmid : total [t] = N + sizeofStructMem + (t.len - (N + sizeofStructMem)) := by
        rw [hd, total_cons, total_nil, Nat.add_zero]
      obtain ⟨hsl, hse⟩ := (hlm.setLfree (if total xs + (N + sizeofStructMem) < h.lfree then
        total xs + (N + sizeofStructMem) else h.lfree)).splitAt newSize hmid hmin (by omega)
        hprev hused
      rw [hd] at hsl hse
      refine ⟨rfl, Laid.trim hr hsl hse.ofLfree ?_ (splitAt_statUsed ..) ?_ hsnug⟩
      · have := firstFree_split 0 (t.len - (N + sizeofStructMem)) newSize xs ys ht hfit
        rw [splitAt_lfree, List.cons_append, List.cons_append, List.nil_append, this, ← hr.lfree]
        simp only [Nat.zero_add]
        split_ifs <;> omega
      · simp only [usedBytes_append, usedBytes_cons, ht, used_some, used_none, if_true,
          Bool.false_eq_true, if_false, List.cons_append, List.nil_append]
        omega
    · -- too little for a tile: the owner keeps it
      rw [if_neg hsplit] at hsnug
      rw [if_neg hsplit, if_neg hsplit]
      exact ⟨rfl, hr.reown ht hsnug, Edited.refl h _⟩

/-- **`mem_init` makes one free tile.** -/
theorem memInit_spec {ram : Nat} (hram : ram % memAlignment = 0) (mem : Nat → UInt8) :
    Rep (memInit ram mem) [⟨memSizeAligned, none⟩] := by
  have haway : Away memSizeAligned 0 := Or.inl (by decide)
  have hfirst : (memInit ram mem).hdr 0 = ⟨memSizeAligned, 0, false⟩ := by
    unfold memInit
    simp only
    rw [hdr_setPrev_away haway, hdr_setNext_away haway, hdr_setUsed_away haway, hdr_setUsed_self,
      hdr_setPrev_self (by decide), hdr_setNext_self (by decide)]
    rfl
  have hlast : ((memInit ram mem).hdr memSizeAligned).used = true := by
    unfold memInit
    simp only
    rw [hdr_setPrev_self (by decide), hdr_setNext_self (by decide), hdr_setUsed_self]
    rfl
  refine ⟨⟨⟨?_, trivial⟩, rfl, hlast, ?_⟩, rfl, rfl, ⟨?_, List.isChain_singleton _⟩, hram⟩
  · rw [hfirst]
    rfl
  · exact List.forall_mem_singleton.mpr (by decide)
  · exact List.forall_mem_singleton.mpr ⟨by decide, by decide, fun n hn => by cases hn⟩

end Stm32F407.Lwip.Mem
