import Stm32F407.Lwip.Mem

/-!
# The heap of lwIP as a tiling

`Rep h ts` says that the bytes of the heap are those of the tiles `ts`: the headers link them from 0
to `MEM_SIZE_ALIGNED`, `lfree` is the first free one, and the statistics count those in use. One lemma
for each function of `mem.c` says which tiles it leaves: `mem_malloc` those of first-fit allocation,
`mem_free` those of freeing with the joining of neighbours, `mem_trim` those of shrinking, and that the
bytes of every owner stay as they are.
-/

namespace Stm32F407.Lwip.Mem

open Stm32F407.Lib

variable {h h' : Heap} {p q v : Nat}

/-- The header at `p`. -/
def Heap.hdr (h : Heap) (p : Nat) : Link := ⟨h.next p, h.prev p, h.used p != 0⟩

/-! ## Headers and the bytes around them -/

theorem hdr_congr (hram : h'.ram = h.ram)
    (hmem : ∀ i, i < sizeofStructMem → h'.mem (h.ram + q + i) = h.mem (h.ram + q + i)) :
    h'.hdr q = h.hdr q := by
  have h0 : h'.mem (h.ram + q) = h.mem (h.ram + q) := hmem 0 (by decide)
  have h1 := hmem 1 (by decide)
  have h2 := hmem 2 (by decide)
  have h3 := hmem 3 (by decide)
  have h4 := hmem 4 (by decide)
  unfold Heap.hdr Heap.next Heap.prev Heap.used
  rw [hram, readHalf_congr h0 h1, readHalf_congr h2 h3, h4]

theorem setNext_mem_of_out {a : Nat} (ha : a < h.ram + p ∨ h.ram + p + sizeofStructMem ≤ a) :
    (h.setNext p v).mem a = h.mem a := by
  unfold sizeofStructMem at ha
  exact writeHalf_of_out (by omega)

theorem setPrev_mem_of_out {a : Nat} (ha : a < h.ram + p ∨ h.ram + p + sizeofStructMem ≤ a) :
    (h.setPrev p v).mem a = h.mem a := by
  unfold sizeofStructMem at ha
  exact writeHalf_of_out (by omega)

theorem setUsed_mem_of_out {b : UInt8} {a : Nat}
    (ha : a < h.ram + p ∨ h.ram + p + sizeofStructMem ≤ a) :
    (h.setUsed p b).mem a = h.mem a := by
  unfold sizeofStructMem at ha
  exact Function.update_of_ne (by omega) _ _

/-- Two headers that do not overlap. -/
def Away (p q : Nat) : Prop := q + sizeofStructMem ≤ p ∨ p + sizeofStructMem ≤ q

theorem hdr_setNext_away (ha : Away p q) : (h.setNext p v).hdr q = h.hdr q := by
  refine hdr_congr rfl fun i hi => setNext_mem_of_out ?_
  unfold Away at ha
  omega

theorem hdr_setPrev_away (ha : Away p q) : (h.setPrev p v).hdr q = h.hdr q := by
  refine hdr_congr rfl fun i hi => setPrev_mem_of_out ?_
  unfold Away at ha
  omega

theorem hdr_setUsed_away {b : UInt8} (ha : Away p q) : (h.setUsed p b).hdr q = h.hdr q := by
  refine hdr_congr rfl fun i hi => setUsed_mem_of_out ?_
  unfold Away at ha
  omega

theorem hdr_setNext_self (hv : v < 2 ^ 16) : (h.setNext p v).hdr p = { h.hdr p with next := v } := by
  have hnext : (readHalf (writeHalf h.mem (h.ram + p) (.ofNat v)) (h.ram + p)).toNat = v := by
    rw [readHalf_writeHalf, UInt16.toNat_ofNat', Nat.mod_eq_of_lt hv]
  have hprev : readHalf (writeHalf h.mem (h.ram + p) (.ofNat v)) (h.ram + p + 2) =
      readHalf h.mem (h.ram + p + 2) := readHalf_writeHalf_of_apart (by omega)
  have hused : writeHalf h.mem (h.ram + p) (.ofNat v) (h.ram + p + 4) = h.mem (h.ram + p + 4) :=
    writeHalf_of_out (by omega)
  simp only [Heap.hdr, Heap.next, Heap.prev, Heap.used, Heap.setNext, hnext, hprev, hused]

theorem hdr_setPrev_self (hv : v < 2 ^ 16) : (h.setPrev p v).hdr p = { h.hdr p with prev := v } := by
  have hprev : (readHalf (writeHalf h.mem (h.ram + p + 2) (.ofNat v)) (h.ram + p + 2)).toNat = v := by
    rw [readHalf_writeHalf, UInt16.toNat_ofNat', Nat.mod_eq_of_lt hv]
  have hnext : readHalf (writeHalf h.mem (h.ram + p + 2) (.ofNat v)) (h.ram + p) =
      readHalf h.mem (h.ram + p) := readHalf_writeHalf_of_apart (by omega)
  have hused : writeHalf h.mem (h.ram + p + 2) (.ofNat v) (h.ram + p + 4) =
      h.mem (h.ram + p + 4) := writeHalf_of_out (by omega)
  simp only [Heap.hdr, Heap.next, Heap.prev, Heap.used, Heap.setPrev, hnext, hprev, hused]

theorem hdr_setUsed_self (b : UInt8) :
    (h.setUsed p b).hdr p = { h.hdr p with used := b != 0 } := by
  have hprev : readHalf (Function.update h.mem (h.ram + p + 4) b) (h.ram + p + 2) =
      readHalf h.mem (h.ram + p + 2) :=
    readHalf_congr (Function.update_of_ne (by omega) _ _) (Function.update_of_ne (by omega) _ _)
  have hnext : readHalf (Function.update h.mem (h.ram + p + 4) b) (h.ram + p) =
      readHalf h.mem (h.ram + p) :=
    readHalf_congr (Function.update_of_ne (by omega) _ _) (Function.update_of_ne (by omega) _ _)
  have hused : Function.update h.mem (h.ram + p + 4) b (h.ram + p + 4) = b := Function.update_self ..
  simp only [Heap.hdr, Heap.next, Heap.prev, Heap.used, Heap.setUsed, hnext, hprev, hused]

theorem next_eq_hdr (h : Heap) (p : Nat) : h.next p = (h.hdr p).next := rfl

theorem prev_eq_hdr (h : Heap) (p : Nat) : h.prev p = (h.hdr p).prev := rfl

theorem used_eq_zero_iff (h : Heap) (p : Nat) : h.used p = 0 ↔ (h.hdr p).used = false := by
  simp [Heap.hdr]

/-! ## The layout -/

/-- The length of the smallest tile. -/
def leastTile : Nat := sizeofStructMem + minSizeAligned

/-- The headers are those of the tiles, and the header at the end is in use. -/
structure Laid (h : Heap) (ts : List Tile) : Prop where
  tiled : Tiled h.hdr 0 0 ts
  whole : total ts = memSizeAligned
  sentinel : (h.hdr memSizeAligned).used = true
  least : ∀ t ∈ ts, leastTile ≤ t.len

variable {t u : Tile} {ts xs ys mid mid' : List Tile}

/-- The tiles in front of `p` begin well before it. -/
theorem away_of_mem_starts (hlen : ∀ t ∈ xs, leastTile ≤ t.len) (hq : q ∈ starts p xs) :
    q + sizeofStructMem ≤ p + total xs := by
  have := mem_starts_add_le hlen hq
  unfold leastTile at this
  omega

/-- **An edit of the layout**: new headers in the middle, the same in front and behind, but for the
`prev` of the tile behind. -/
theorem Laid.edit (hl : Laid h (xs ++ (mid ++ ys))) (htotal : total mid' = total mid)
    (hleast : ∀ t ∈ mid', leastTile ≤ t.len)
    (hmid : Tiled h'.hdr (lastStart 0 0 xs) (total xs) mid')
    (hxs : ∀ q ∈ starts 0 xs, h'.hdr q = h.hdr q)
    (hnext : ys ≠ [] → h'.hdr (total xs + total mid) =
      { h.hdr (total xs + total mid) with prev := lastStart (lastStart 0 0 xs) (total xs) mid' })
    (hys : ∀ q ∈ starts (total xs + total mid) ys, q ≠ total xs + total mid → h'.hdr q = h.hdr q)
    (hend : (h'.hdr memSizeAligned).used = true) : Laid h' (xs ++ (mid' ++ ys)) := by
  obtain ⟨htiled, hwhole, -, hlen⟩ := hl
  obtain ⟨htx, htmid⟩ := tiled_append.mp htiled
  obtain ⟨-, hty⟩ := tiled_append.mp htmid
  rw [Nat.zero_add] at htmid hty
  have hlen' : ∀ t ∈ ys, 0 < t.len := fun t ht =>
    Nat.lt_of_lt_of_le (by decide) (hlen t (by simp [ht]))
  refine ⟨tiled_append.mpr ⟨htx.congr hxs, ?_⟩, ?_, hend, ?_⟩
  · rw [Nat.zero_add, tiled_append]
    refine ⟨hmid, ?_⟩
    rw [htotal]
    exact tiled_relink hty hnext hys hlen'
  · rw [← hwhole]
    simp [htotal]
  · intro t ht
    rcases List.mem_append.mp ht with ht | ht
    · exact hlen t (List.mem_append_left _ ht)
    rcases List.mem_append.mp ht with ht | ht
    · exact hleast t ht
    · exact hlen t (by simp [ht])

/-- What the header of a tile says. -/
theorem Laid.hdr_eq (hl : Laid h (xs ++ t :: ys)) :
    h.hdr (total xs) = ⟨total xs + t.len, lastStart 0 0 xs, t.used⟩ := by
  have := (tiled_append.mp hl.tiled).2
  rw [Nat.zero_add] at this
  exact this.1

/-- The end of a tile is the end of the heap only for the last one. -/
theorem Laid.end_iff (hl : Laid h (xs ++ t :: ys)) :
    total xs + t.len = memSizeAligned ↔ ys = [] := by
  have hw := hl.whole
  rw [total_append, total_cons] at hw
  constructor
  · intro he
    cases ys with
    | nil => rfl
    | cons y ys =>
      have hy := hl.least y (by simp)
      have hpos : 0 < leastTile := by decide
      rw [total_cons] at hw
      omega
  · rintro rfl
    rw [total_nil] at hw
    exact hw

theorem Laid.le (hl : Laid h (xs ++ t :: ys)) :
    total xs + t.len ≤ memSizeAligned ∧ leastTile ≤ t.len := by
  have hw := hl.whole
  rw [total_append, total_cons] at hw
  exact ⟨by omega, hl.least t (by simp)⟩

/-- A tile further on. -/
theorem Laid.hdr_eq_snd (hl : Laid h (xs ++ t :: u :: ys)) :
    h.hdr (total xs + t.len) = ⟨total xs + t.len + u.len, total xs, u.used⟩ := by
  have hl' : Laid h (xs ++ [t] ++ u :: ys) := by simpa using hl
  have := hl'.hdr_eq
  simp only [total_append, total_cons, total_nil, Nat.add_zero, lastStart_append, lastStart,
    Nat.zero_add] at this
  exact this

theorem Laid.starts_ne (hl : Laid h (xs ++ (mid ++ ys))) (hq : q ∈ starts (total xs + total mid) ys)
    (hne : q ≠ total xs + total mid) : total xs + total mid + leastTile ≤ q ∧
      q + leastTile ≤ memSizeAligned := by
  have hlen : ∀ t ∈ ys, leastTile ≤ t.len := fun t ht => hl.least t (by simp [ht])
  have hw := hl.whole
  simp only [total_append] at hw
  constructor
  · cases ys with
    | nil => cases hq
    | cons y ys =>
      rcases List.mem_cons.mp hq with rfl | hq
      · exact absurd rfl hne
      · have := mem_starts_le hq
        have := hlen y List.mem_cons_self
        omega
  · have := mem_starts_add_le hlen hq
    omega

/-- The writes that put the header of a tile and the back link of the one behind it in place. -/
structure Edited (h h' : Heap) (written : List Nat) : Prop where
  ram : h'.ram = h.ram
  away : ∀ q, (∀ w ∈ written, Away w q) → h'.hdr q = h.hdr q
  mem : ∀ a, (∀ w ∈ written, a < h.ram + w ∨ h.ram + w + sizeofStructMem ≤ a) →
    h'.mem a = h.mem a

theorem Edited.refl (h : Heap) (ws : List Nat) : Edited h h ws := ⟨rfl, fun _ _ => rfl, fun _ _ => rfl⟩

theorem Edited.setNext {ws : List Nat} (he : Edited h h' ws) (hp : p ∈ ws) :
    Edited h (h'.setNext p v) ws :=
  ⟨he.ram, fun q hq => (hdr_setNext_away (hq p hp)).trans (he.away q hq),
    fun a ha => (setNext_mem_of_out (by rw [he.ram]; exact ha p hp)).trans (he.mem a ha)⟩

theorem Edited.setPrev {ws : List Nat} (he : Edited h h' ws) (hp : p ∈ ws) :
    Edited h (h'.setPrev p v) ws :=
  ⟨he.ram, fun q hq => (hdr_setPrev_away (hq p hp)).trans (he.away q hq),
    fun a ha => (setPrev_mem_of_out (by rw [he.ram]; exact ha p hp)).trans (he.mem a ha)⟩

theorem Edited.setUsed {ws : List Nat} {b : UInt8} (he : Edited h h' ws) (hp : p ∈ ws) :
    Edited h (h'.setUsed p b) ws :=
  ⟨he.ram, fun q hq => (hdr_setUsed_away (hq p hp)).trans (he.away q hq),
    fun a ha => (setUsed_mem_of_out (by rw [he.ram]; exact ha p hp)).trans (he.mem a ha)⟩

/-- Edited headers inside the tiles leave the heap laid out. -/
theorem Laid.edited {ws : List Nat} (hl : Laid h (xs ++ (mid ++ ys))) (he : Edited h h' ws)
    (hws : ∀ w ∈ ws, total xs ≤ w ∧
      (w + sizeofStructMem ≤ total xs + total mid ∨ w = total xs + total mid ∧ ys ≠ []))
    (htotal : total mid' = total mid) (hleast : ∀ t ∈ mid', leastTile ≤ t.len)
    (hmid : Tiled h'.hdr (lastStart 0 0 xs) (total xs) mid')
    (hnext : ys ≠ [] → h'.hdr (total xs + total mid) =
      { h.hdr (total xs + total mid) with prev := lastStart (lastStart 0 0 xs) (total xs) mid' }) :
    Laid h' (xs ++ (mid' ++ ys)) := by
  have hw := hl.whole
  simp only [total_append] at hw
  have hleast' : sizeofStructMem ≤ leastTile := by decide
  refine hl.edit htotal hleast hmid ?_ hnext ?_ ?_
  · intro q hq
    have hq' := away_of_mem_starts (fun t ht => hl.least t (List.mem_append_left _ ht)) hq
    refine he.away q fun w hw => Or.inl ?_
    have := hws w hw
    omega
  · intro q hq hne
    obtain ⟨hge, -⟩ := hl.starts_ne hq hne
    refine he.away q fun w hw => Or.inr ?_
    have := hws w hw
    omega
  · rw [he.away memSizeAligned fun w hw' => Or.inr ?_]
    · exact hl.sentinel
    · rcases (hws w hw').2 with hle | ⟨rfl, hne⟩
      · omega
      · cases ys with
        | nil => exact absurd rfl hne
        | cons y ys =>
          have := hl.least y (by simp)
          rw [total_cons] at hw
          omega

theorem Edited.mono {ws ws' : List Nat} (he : Edited h h' ws) (hsub : ∀ w ∈ ws, w ∈ ws') :
    Edited h h' ws' :=
  ⟨he.ram, fun q hq => he.away q fun w hw => hq w (hsub w hw),
    fun a ha => he.mem a fun w hw => ha w (hsub w hw)⟩

theorem Edited.trans {ws : List Nat} {g : Heap} (hg : Edited h g ws) (he : Edited g h' ws) :
    Edited h h' ws := by
  refine ⟨he.ram.trans hg.ram, fun q hq => (he.away q hq).trans (hg.away q hq), fun a ha => ?_⟩
  refine (he.mem a fun w hw => ?_).trans (hg.mem a ha)
  rw [hg.ram]
  exact ha w hw

/-- The tile behind, if there is one. -/
def behind (e : Nat) (ys : List Tile) : List Nat := if ys = [] then [] else [e]

theorem mem_behind {e w : Nat} : w ∈ behind e ys ↔ w = e ∧ ys ≠ [] := by
  unfold behind
  split_ifs with hys
  · simp [hys]
  · simp [hys]

/-- The writes of `combine`, for headers `C` and `D` that do not overlap. -/
theorem combine_eq {C D E : Nat} (hnext : h.next D = E) (hCD : Away C D) :
    combine h C D =
      { (if E ≠ memSizeAligned then (h.setNext C E).setPrev E C else h.setNext C E) with
        lfree := if h.lfree = D then C else h.lfree } := by
  have hkeep : (h.setNext C E).next D = E := by
    rw [next_eq_hdr, hdr_setNext_away hCD]
    exact hnext
  unfold combine
  by_cases hlf : h.lfree = D
  · have hn : Heap.next { h with lfree := C } D = E := hnext
    have hk : (Heap.setNext { h with lfree := C } C E).next D = E := hkeep
    simp only [if_pos hlf, hn, hk]
    split_ifs <;> rfl
  · simp only [if_neg hlf, hnext, hkeep]
    split_ifs
    · rfl
    · rfl

/-- What `combine` leaves: one free tile in the place of two. -/
theorem combine_spec (hl : Laid h (xs ++ t :: u :: ys)) (ht : t.used = false) :
    Laid (combine h (total xs) (total xs + t.len)) (xs ++ ⟨t.len + u.len, none⟩ :: ys) ∧
      Edited h (combine h (total xs) (total xs + t.len))
        (total xs :: behind (total xs + t.len + u.len) ys) ∧
      (combine h (total xs) (total xs + t.len)).lfree =
        (if h.lfree = total xs + t.len then total xs else h.lfree) ∧
      (combine h (total xs) (total xs + t.len)).statUsed = h.statUsed := by
  have hC := hl.hdr_eq
  have hD := hl.hdr_eq_snd
  obtain ⟨hle, htl⟩ := hl.le
  have hul := hl.least u (by simp)
  have h8 : leastTile = 20 ∧ sizeofStructMem = 8 ∧ memSizeAligned = 16000 := ⟨rfl, rfl, rfl⟩
  have hmid : total [t, u] = t.len + u.len := by simp
  have hw := hl.whole
  simp only [total_append, total_cons] at hw
  have hend : total xs + t.len + u.len = memSizeAligned ↔ ys = [] := by
    have hl' : Laid h (xs ++ [t] ++ u :: ys) := by simpa using hl
    simpa [Nat.add_assoc] using hl'.end_iff
  have hlm : Laid h (xs ++ ([t, u] ++ ys)) := hl
  generalize hCdef : total xs = C at *
  generalize hEdef : C + t.len + u.len = E at *
  have hcomb := @combine_eq h C (C + t.len) E (by rw [next_eq_hdr, hD]) (Or.inr (by omega))
  -- the two headers that are written
  have hedit : Edited h (combine h C (C + t.len)) (C :: behind E ys) := by
    rw [hcomb]
    have hnext : Edited h (h.setNext C E) (C :: behind E ys) :=
      (Edited.refl h _).setNext List.mem_cons_self
    by_cases hE : E = memSizeAligned
    · rw [if_neg (not_not.mpr hE)]
      exact ⟨hnext.ram, hnext.away, hnext.mem⟩
    · have hys : E ∈ C :: behind E ys :=
        List.mem_cons_of_mem _ (mem_behind.mpr ⟨rfl, fun hys => hE (hend.mpr hys)⟩)
      have hprev := hnext.setPrev hys (v := C)
      rw [if_pos hE]
      exact ⟨hprev.ram, hprev.away, hprev.mem⟩
  have hhdrC : (combine h C (C + t.len)).hdr C = ⟨E, lastStart 0 0 xs, false⟩ := by
    rw [hcomb]
    show Heap.hdr (if E ≠ memSizeAligned then _ else _) C = _
    split_ifs with hE
    · rw [hdr_setPrev_away (Or.inl (by omega)), hdr_setNext_self (by omega), hC, ht]
    · rw [hdr_setNext_self (by omega), hC, ht]
  have hhdrE : ys ≠ [] → (combine h C (C + t.len)).hdr E = { h.hdr E with prev := C } := by
    intro hys
    have hE : E ≠ memSizeAligned := fun hE => hys (hend.mp hE)
    rw [hcomb, if_pos hE]
    show ((h.setNext C E).setPrev E C).hdr E = _
    rw [hdr_setPrev_self (by omega), hdr_setNext_away (Or.inr (by omega))]
  refine ⟨?_, hedit, by rw [hcomb], ?_⟩
  · have hEmid : C + total [t, u] = E := by rw [hmid]; omega
    refine @Laid.edited h _ xs ys [t, u] [⟨t.len + u.len, none⟩] _ hlm hedit ?_ ?_ ?_ ?_ ?_
    · intro w hw
      rw [hCdef, hEmid]
      rcases List.mem_cons.mp hw with rfl | hw
      · exact ⟨le_rfl, Or.inl (by omega)⟩
      · obtain ⟨rfl, hys⟩ := mem_behind.mp hw
        exact ⟨by omega, Or.inr ⟨rfl, hys⟩⟩
    · rw [hmid]
      simp
    · simp only [List.forall_mem_singleton]
      omega
    · refine ⟨?_, trivial⟩
      rw [hCdef, hhdrC]
      simp only [Tile.used, Option.isSome_none, Link.mk.injEq, and_true]
      omega
    · intro hys
      rw [hCdef, hEmid, hhdrE hys]
      rfl
  · rw [hcomb]
    show Heap.statUsed (if E ≠ memSizeAligned then _ else _) = _
    split_ifs <;> rfl

/-! ## `plug_holes` -/

theorem mem_starts_cons : total xs ∈ starts 0 (xs ++ t :: ys) := by
  rw [mem_starts_append, Nat.zero_add]
  exact Or.inr List.mem_cons_self

theorem behind_subset_starts : ∀ w ∈ behind (total xs + t.len) ys, w ∈ starts 0 (xs ++ t :: ys) := by
  intro w hw
  obtain ⟨rfl, hys⟩ := mem_behind.mp hw
  rw [mem_starts_append, Nat.zero_add]
  cases ys with
  | nil => exact absurd rfl hys
  | cons y ys => exact Or.inr (List.mem_cons_of_mem _ List.mem_cons_self)

/-- Joining removes a beginning and adds none. -/
theorem starts_join_subset : ∀ w ∈ starts 0 (xs ++ join t ys), w ∈ starts 0 (xs ++ t :: ys) := by
  intro w
  rw [mem_starts_append, mem_starts_append]
  refine Or.imp_right fun hw => ?_
  cases ys with
  | nil => exact hw
  | cons u us =>
    rw [join] at hw
    split_ifs at hw
    · rcases List.mem_cons.mp hw with rfl | hw
      · exact List.mem_cons_self
      · rw [← Nat.add_assoc] at hw
        exact List.mem_cons_of_mem _ (List.mem_cons_of_mem _ hw)
    · exact hw

/-- The first half of `plug_holes`. -/
theorem plug_forward (hl : Laid h (xs ++ t :: ys)) (ht : t.used = false)
    (hlf : h.lfree ≤ total xs) :
    let g := if total xs ≠ h.next (total xs) ∧ h.used (h.next (total xs)) = 0 ∧
        h.next (total xs) ≠ memSizeAligned then combine h (total xs) (h.next (total xs)) else h
    Laid g (xs ++ join t ys) ∧ Edited h g (starts 0 (xs ++ t :: ys)) ∧ g.lfree = h.lfree ∧
      g.statUsed = h.statUsed := by
  obtain ⟨-, htl⟩ := hl.le
  have h8 : leastTile = 20 := rfl
  have hnext : h.next (total xs) = total xs + t.len := by rw [next_eq_hdr, hl.hdr_eq]
  rw [hnext]
  intro g
  cases ys with
  | nil =>
    have hg : g = h := if_neg fun hc => hc.2.2 (hl.end_iff.mpr rfl)
    rw [hg]
    exact ⟨hl, Edited.refl h _, rfl, rfl⟩
  | cons u us =>
    have hend : total xs + t.len ≠ memSizeAligned := fun he => List.cons_ne_nil _ _ (hl.end_iff.mp he)
    have hused : h.used (total xs + t.len) = 0 ↔ u.used = false := by
      rw [used_eq_zero_iff, hl.hdr_eq_snd]
    by_cases hu : u.used = false
    · obtain ⟨hlaid, hedit, hlfree, hstat⟩ := combine_spec hl ht
      have hg : g = combine h (total xs) (total xs + t.len) :=
        if_pos ⟨by omega, hused.mpr hu, hend⟩
      rw [hg, join, if_pos ⟨ht, hu⟩]
      refine ⟨hlaid, hedit.mono fun w hw => ?_, ?_, hstat⟩
      · rcases List.mem_cons.mp hw with rfl | hw
        · exact mem_starts_cons
        · have hsub := @behind_subset_starts u (xs ++ [t]) us w
          simp only [total_append, total_cons, total_nil, Nat.add_zero, List.append_assoc,
            List.singleton_append] at hsub
          exact hsub hw
      · rw [hlfree, if_neg (by omega)]
    · have hg : g = h := if_neg fun hc => hu (hused.mp hc.2.1)
      rw [hg, join, if_neg fun hc => hu hc.2]
      exact ⟨hl, Edited.refl h _, rfl, rfl⟩

/-- The second half, for a tile that has one in front. -/
theorem plug_backward {x : Tile} (hl : Laid h (xs ++ [x] ++ t :: ys)) (ht : t.used = false)
    (hlow : x.used = false → h.lfree ≤ total xs) {p : Nat} (hp : p = total xs + x.len) :
    let g := if h.prev p ≠ p ∧ h.used (h.prev p) = 0 then combine h (h.prev p) p else h
    Laid g (xs ++ join x (t :: ys)) ∧ Edited h g (starts 0 (xs ++ [x] ++ t :: ys)) ∧
      g.lfree = h.lfree ∧ g.statUsed = h.statUsed ∧ g.hdr p = h.hdr p := by
  have hl' : Laid h (xs ++ x :: t :: ys) := by simpa using hl
  obtain ⟨-, hxl⟩ := hl'.le
  have h8 : leastTile = 20 := rfl
  have hprev : h.prev p = total xs := by
    rw [hp, prev_eq_hdr, hl'.hdr_eq_snd]
  have hused : h.used (total xs) = 0 ↔ x.used = false := by rw [used_eq_zero_iff, hl'.hdr_eq]
  rw [hprev, hp]
  intro g
  by_cases hx : x.used = false
  · obtain ⟨hlaid, hedit, hlfree, hstat⟩ := combine_spec hl' hx
    have hg : g = combine h (total xs) (total xs + x.len) :=
      if_pos ⟨show total xs ≠ total xs + x.len by omega, hused.mpr hx⟩
    rw [hg, join, if_pos ⟨hx, ht⟩]
    refine ⟨hlaid, hedit.mono fun w hw => ?_, ?_, hstat, hedit.away _ fun w hw => ?_⟩
    · rw [List.append_assoc, List.singleton_append]
      rcases List.mem_cons.mp hw with rfl | hw
      · exact mem_starts_cons
      · have hsub := @behind_subset_starts t (xs ++ [x]) ys w
        simp only [total_append, total_cons, total_nil, Nat.add_zero, List.append_assoc,
          List.singleton_append] at hsub
        exact hsub hw
    · have := hlow hx
      rw [hlfree, if_neg (by omega)]
    · -- the header that is swallowed is not written
      have h8' : sizeofStructMem = 8 := rfl
      have htl := hl.le.2
      rcases List.mem_cons.mp hw with rfl | hw
      · exact Or.inr (by omega)
      · obtain ⟨rfl, -⟩ := mem_behind.mp hw
        exact Or.inl (by omega)
  · have hg : g = h := if_neg fun hc => hx (hused.mp hc.2)
    rw [hg, join, if_neg fun hc => hx hc.1]
    exact ⟨hl', Edited.refl h _, rfl, rfl, rfl⟩

/-! ## `mem_free` -/

/-- The tiles of the heap are snug. -/
abbrev SnugHeap (ts : List Tile) : Prop := Snug sizeofStructMem leastTile memAlignment ts

/-- The heap is that of the tiles. -/
structure Rep (h : Heap) (ts : List Tile) : Prop where
  laid : Laid h ts
  lfree : h.lfree = firstFree 0 ts
  stat : h.statUsed = usedBytes ts
  snug : SnugHeap ts
  aligned : h.ram % memAlignment = 0

/-- `plug_holes` joins a free tile with its neighbours. -/
theorem plugHoles_spec {l : Nat} (hl : Laid h (xs ++ ⟨l, none⟩ :: ys))
    (hlf : h.lfree ≤ total xs) (hlow : ∀ ws x, xs = ws ++ [x] → x.used = false → h.lfree ≤ total ws)
    (hchain : xs.IsChain Neighbours) :
    Laid (plugHoles h (total xs)) (xs.foldr join (join ⟨l, none⟩ ys)) ∧
      Edited h (plugHoles h (total xs)) (starts 0 (xs ++ ⟨l, none⟩ :: ys)) ∧
      (plugHoles h (total xs)).lfree = h.lfree ∧
      (plugHoles h (total xs)).statUsed = h.statUsed ∧
      (plugHoles h (total xs)).used (total xs) = 0 := by
  obtain ⟨hgl, hge, hglf, hgs⟩ := plug_forward hl rfl hlf
  obtain ⟨c, cs, hjoin, hc⟩ := join_eq_cons ⟨l, none⟩ ys
  unfold plugHoles
  simp only
  generalize (if total xs ≠ h.next (total xs) ∧ h.used (h.next (total xs)) = 0 ∧
    h.next (total xs) ≠ memSizeAligned then combine h (total xs) (h.next (total xs)) else h) = g at *
  rw [hjoin] at hgl ⊢
  have hfree : (g.hdr (total xs)).used = false := by
    rw [hgl.hdr_eq]
    exact hc
  rcases List.eq_nil_or_concat xs with rfl | ⟨ws, x, rfl⟩
  · -- the first tile has none in front
    have hprev : g.prev (total []) = total [] := by
      rw [prev_eq_hdr, hgl.hdr_eq]
      rfl
    rw [if_neg fun hc => hc.1 hprev]
    exact ⟨hgl, hge, hglf, hgs, (used_eq_zero_iff g _).mpr hfree⟩
  · rw [List.concat_eq_append] at *
    have hp : total (ws ++ [x]) = total ws + x.len := by simp
    obtain ⟨hbl, hbe, hblf, hbs, hbh⟩ :=
      plug_backward hgl hc (fun hx => hglf ▸ hlow ws x rfl hx) hp
    rw [foldr_join_concat hchain]
    refine ⟨hbl, hge.trans (hbe.mono fun w hw => ?_), hblf.trans hglf, hbs.trans hgs, ?_⟩
    · rw [← hjoin] at hw
      exact starts_join_subset w hw
    · rw [used_eq_zero_iff, hbh]
      exact hfree

/-- The links of a tile are valid. -/
theorem Laid.memLinkValid (hl : Laid h (xs ++ t :: ys)) : MemLinkValid h (total xs) := by
  obtain ⟨hle, -⟩ := hl.le
  have hhdr := hl.hdr_eq
  have hnext : h.next (total xs) = total xs + t.len := by rw [next_eq_hdr, hhdr]
  have hprev : h.prev (total xs) = lastStart 0 0 xs := by rw [prev_eq_hdr, hhdr]
  have hfront : lastStart 0 0 xs ≤ total xs ∧
      (lastStart 0 0 xs = total xs ∨ h.next (lastStart 0 0 xs) = total xs) := by
    rcases List.eq_nil_or_concat xs with rfl | ⟨ws, x, rfl⟩
    · exact ⟨le_rfl, Or.inl rfl⟩
    · rw [List.concat_eq_append] at *
      have hl' : Laid h (ws ++ x :: t :: ys) := by simpa using hl
      have hlast : lastStart 0 0 (ws ++ [x]) = total ws := by
        rw [lastStart_append, lastStart, lastStart, Nat.zero_add]
      have htot : total (ws ++ [x]) = total ws + x.len := by simp
      rw [hlast, htot, next_eq_hdr, hl'.hdr_eq]
      exact ⟨Nat.le_add_right _ _, Or.inr rfl⟩
  have hback : total xs + t.len = memSizeAligned ∨ h.prev (total xs + t.len) = total xs := by
    cases ys with
    | nil => exact Or.inl (hl.end_iff.mpr rfl)
    | cons u us => exact Or.inr (by rw [prev_eq_hdr, hl.hdr_eq_snd])
  unfold MemLinkValid
  rw [hnext, hprev]
  omega

/-- A tile becomes free. -/
theorem Laid.setFree (hl : Laid h (xs ++ t :: ys)) :
    Laid (h.setUsed (total xs) 0) (xs ++ ⟨t.len, none⟩ :: ys) ∧
      Edited h (h.setUsed (total xs) 0) [total xs] := by
  have hedit : Edited h (h.setUsed (total xs) 0) [total xs] :=
    (Edited.refl h _).setUsed (List.mem_singleton.mpr rfl)
  obtain ⟨-, hleast⟩ := hl.le
  have h8 : leastTile = 20 ∧ sizeofStructMem = 8 := ⟨rfl, rfl⟩
  have hmid : total [t] = t.len := by simp
  refine ⟨@Laid.edited h _ xs ys [t] [⟨t.len, none⟩] _ hl hedit ?_ rfl ?_ ?_ ?_, hedit⟩
  · intro w hw
    rw [List.mem_singleton.mp hw, hmid]
    exact ⟨le_rfl, Or.inl (by omega)⟩
  · simpa using hleast
  · refine ⟨?_, trivial⟩
    rw [hdr_setUsed_self, hl.hdr_eq]
    rfl
  · intro hys
    rw [hmid, hdr_setUsed_away (Or.inr (by omega))]
    cases ys with
    | nil => exact absurd rfl hys
    | cons u us => rw [hl.hdr_eq_snd]; rfl

/-- **`mem_free` of a tile in use releases it.** -/
theorem memFree_spec (hr : Rep h (xs ++ t :: ys)) (ht : t.used = true) :
    Rep (memFree h (h.ram + total xs + sizeofStructMem)) (release (total xs) (xs ++ t :: ys)) ∧
      Edited h (memFree h (h.ram + total xs + sizeofStructMem)) (starts 0 (xs ++ t :: ys)) ∧
      (memFree h (h.ram + total xs + sizeofStructMem)).used (total xs) = 0 := by
  obtain ⟨hl, hlf, hstat, hsnug, hal⟩ := hr
  obtain ⟨hle, hleast⟩ := hl.le
  have h8 : leastTile = 20 ∧ sizeofStructMem = 8 ∧ memSizeAligned = 16000 ∧ minSizeAligned = 12 ∧
    memAlignment = 4 := ⟨rfl, rfl, rfl, rfl, rfl⟩
  have hpos : ∀ u ∈ xs, 0 < u.len := fun u hu =>
    Nat.lt_of_lt_of_le (by decide) (hl.least u (List.mem_append_left _ hu))
  have hdvd : memAlignment ∣ total xs :=
    dvd_total fun u hu => (hsnug.sound u (List.mem_append_left _ hu)).aligned
  have hused : h.used (total xs) ≠ 0 := by
    rw [Ne, used_eq_zero_iff, hl.hdr_eq]
    simp [ht]
  obtain ⟨hfl, hfe⟩ := hl.setFree
  -- the heap before the holes are plugged
  have hnext : (h.setUsed (total xs) 0).next (total xs) = total xs + t.len := by
    rw [next_eq_hdr, hfl.hdr_eq]
  have hfree : memFree h (h.ram + total xs + sizeofStructMem) =
      plugHoles (Heap.decUsed { h.setUsed (total xs) 0 with
        lfree := min (total xs) h.lfree } t.len) (total xs) := by
    have hoff : h.ram + total xs + sizeofStructMem - sizeofStructMem - h.ram = total xs := by omega
    have hmod : (h.ram + total xs + sizeofStructMem) % memAlignment = 0 := by
      have hal' : h.ram % 4 = 0 := hal
      have hdvd' : 4 ∣ total xs := hdvd
      show (h.ram + total xs + 8) % 4 = 0
      omega
    unfold memFree
    simp only [hoff]
    rw [if_neg (by omega), if_neg (not_not.mpr hmod), if_neg (by omega), if_neg hused,
      if_neg (not_not.mpr hl.memLinkValid)]
    have hlfree : (h.setUsed (total xs) 0).lfree = h.lfree := rfl
    by_cases hlt : total xs < h.lfree
    · simp only [hlfree, if_pos hlt, Nat.min_eq_left hlt.le]
      rw [show Heap.next { h.setUsed (total xs) 0 with lfree := total xs } (total xs) =
        total xs + t.len from hnext, Nat.add_sub_cancel_left]
    · simp only [hlfree, if_neg hlt, Nat.min_eq_right (Nat.le_of_not_lt hlt)]
      rw [hnext, Nat.add_sub_cancel_left]
      rfl
  rw [hfree]
  generalize hg : Heap.decUsed { h.setUsed (total xs) 0 with
    lfree := min (total xs) h.lfree } t.len = g
  have hgl : Laid g (xs ++ ⟨t.len, none⟩ :: ys) := by
    rw [← hg]
    exact ⟨hfl.tiled, hfl.whole, hfl.sentinel, hfl.least⟩
  have hge : Edited h g [total xs] := by
    rw [← hg]
    exact ⟨hfe.ram, hfe.away, hfe.mem⟩
  have hglf : g.lfree = min (total xs) (firstFree 0 (xs ++ t :: ys)) := by
    rw [← hg, ← hlf]
    rfl
  obtain ⟨hub, hff⟩ := @usedBytes_release t xs ys 0 ht hpos
  have hgs : g.statUsed = usedBytes (release (total xs) (xs ++ t :: ys)) := by
    have hbound := usedBytes_le_total (xs ++ t :: ys)
    rw [hl.whole] at hbound
    rw [← hg]
    show (h.statUsed + 2 ^ 16 - t.len) % 2 ^ 16 = _
    omega
  -- a free tile in front is not before the first free one
  have hlow : ∀ ws x, xs = ws ++ [x] → x.used = false → g.lfree ≤ total ws := by
    rintro ws x rfl hx
    have := firstFree_le_of_free 0 ws (t :: ys) hx
    rw [hglf, List.append_assoc, List.singleton_append]
    omega
  obtain ⟨hpl, hpe, hplf, hps, hpu⟩ := plugHoles_spec hgl (hglf ▸ Nat.min_le_left _ _) hlow
    (List.isChain_append.mp hsnug.apart).1
  have hrel := @release_append t xs ys hpos
  have hedit : Edited h (plugHoles g (total xs)) (starts 0 (xs ++ t :: ys)) := by
    have hstarts : ∀ w ∈ starts 0 (xs ++ ⟨t.len, none⟩ :: ys), w ∈ starts 0 (xs ++ t :: ys) := by
      intro w hw
      rw [mem_starts_append] at hw ⊢
      exact hw
    have hw : ∀ w ∈ [total xs], w ∈ starts 0 (xs ++ t :: ys) := by
      simpa using mem_starts_cons
    exact (hge.mono hw).trans (hpe.mono hstarts)
  refine ⟨⟨hrel ▸ hpl, ?_, hps.trans hgs, hsnug.release _, ?_⟩, hedit, hpu⟩
  · rw [hplf, hglf, hff, Nat.zero_add]
  · rw [hedit.ram]
    exact hal

end Stm32F407.Lwip.Mem
