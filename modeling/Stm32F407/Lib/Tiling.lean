import Mathlib.Algebra.Order.Ring.Nat
import Mathlib.Data.List.Chain

/-!
# Areas tiled by blocks that are linked both ways

An area is cut into tiles one after the other. Each tile begins with a link that holds where the next
one begins, where the one before begins, and whether the tile is in use. `Tiled hdr prev p ts` says
that the links `hdr`, from the place `p` on, are those of the tiles `ts`.

* `tiled_append` cuts a tiling at any tile, and `tiled_relink` joins it again after a change of the
  tile in front, so an edit of some tiles is an edit of their links and of one `prev` behind them.
* `allot`, `release` and `trimmed` are first-fit allocation with splitting, freeing with the joining
  of neighbours, and giving back the end of a tile, on the tiles alone.
* `Snug` is what these keep: tiles are aligned and not too small, an owner has what it asked for, and
  no two free tiles are neighbours.
-/

namespace Stm32F407.Lib

/-- A tile: its length, link included, and for a tile in use what its owner asked for. -/
structure Tile where
  len : Nat
  owner : Option Nat
deriving DecidableEq, Repr

/-- What a tile begins with. -/
structure Link where
  next : Nat
  prev : Nat
  used : Bool
deriving DecidableEq, Repr

/-- The tile is in use. -/
def Tile.used (t : Tile) : Bool := t.owner.isSome

/-- The length of all tiles. -/
def total (ts : List Tile) : Nat := (ts.map Tile.len).sum

/-- Where the last tile begins; `prev` when there is none. -/
def lastStart (prev p : Nat) : List Tile → Nat
  | [] => prev
  | t :: ts => lastStart p (p + t.len) ts

/-- The links from `p` on are those of the tiles. -/
def Tiled (hdr : Nat → Link) : Nat → Nat → List Tile → Prop
  | _, _, [] => True
  | prev, p, t :: ts => hdr p = ⟨p + t.len, prev, t.used⟩ ∧ Tiled hdr p (p + t.len) ts

/-- Where the tiles begin. -/
def starts (p : Nat) : List Tile → List Nat
  | [] => []
  | t :: ts => p :: starts (p + t.len) ts

/-- Where the first free tile begins, or the end. -/
def firstFree (p : Nat) : List Tile → Nat
  | [] => p
  | t :: ts => if t.used then firstFree (p + t.len) ts else p

variable {hdr hdr' : Nat → Link} {prev p : Nat} {t : Tile} {ts us : List Tile}

@[simp] theorem used_none (l : Nat) : (⟨l, none⟩ : Tile).used = false := rfl

@[simp] theorem used_some (l n : Nat) : (⟨l, some n⟩ : Tile).used = true := rfl

@[simp] theorem total_nil : total [] = 0 := rfl

@[simp] theorem total_cons : total (t :: ts) = t.len + total ts := List.sum_cons

@[simp] theorem total_append : total (ts ++ us) = total ts + total us := by
  induction ts with
  | nil => simp
  | cons t ts ih => rw [List.cons_append, total_cons, ih, total_cons, Nat.add_assoc]

theorem lastStart_append (ts us : List Tile) (prev p : Nat) :
    lastStart prev p (ts ++ us) = lastStart (lastStart prev p ts) (p + total ts) us := by
  induction ts generalizing prev p with
  | nil => rfl
  | cons t ts ih =>
    rw [List.cons_append, lastStart, ih, lastStart, total_cons, Nat.add_assoc]

/-- A tiling is cut at any tile. -/
theorem tiled_append : Tiled hdr prev p (ts ++ us) ↔
    Tiled hdr prev p ts ∧ Tiled hdr (lastStart prev p ts) (p + total ts) us := by
  induction ts generalizing prev p with
  | nil => exact ⟨fun h => ⟨trivial, h⟩, fun h => h.2⟩
  | cons t ts ih =>
    rw [List.cons_append, Tiled, Tiled, ih, lastStart, total_cons, Nat.add_assoc, and_assoc]

theorem mem_starts_le {q : Nat} (h : q ∈ starts p ts) : p ≤ q := by
  induction ts generalizing p with
  | nil => cases h
  | cons t ts ih =>
    rcases List.mem_cons.mp h with rfl | h
    · exact le_rfl
    · exact (Nat.le_add_right p t.len).trans (ih h)

theorem mem_starts_add {q k : Nat} (h : q ∈ starts p ts) : k + q ∈ starts (k + p) ts := by
  induction ts generalizing p with
  | nil => cases h
  | cons t ts ih =>
    rcases List.mem_cons.mp h with rfl | h
    · exact List.mem_cons_self
    · exact List.mem_cons_of_mem _ (Nat.add_assoc k p t.len ▸ ih h)

theorem mem_starts_append {q : Nat} :
    q ∈ starts p (ts ++ us) ↔ q ∈ starts p ts ∨ q ∈ starts (p + total ts) us := by
  induction ts generalizing p with
  | nil => simp [starts]
  | cons t ts ih =>
    simp only [List.cons_append, starts, List.mem_cons, ih, total_cons, Nat.add_assoc, or_assoc]

/-- A tile ends before the tiles do. -/
theorem mem_starts_add_le {q least : Nat} (hlen : ∀ t ∈ ts, least ≤ t.len)
    (h : q ∈ starts p ts) : q + least ≤ p + total ts := by
  induction ts generalizing p with
  | nil => cases h
  | cons t ts ih =>
    rw [total_cons]
    rcases List.mem_cons.mp h with rfl | h
    · have := hlen t List.mem_cons_self
      omega
    · have := ih (fun t ht => hlen t (List.mem_cons_of_mem _ ht)) h
      omega

/-- Only the links at the beginnings of tiles matter. -/
theorem Tiled.congr (h : Tiled hdr prev p ts) (heq : ∀ q ∈ starts p ts, hdr' q = hdr q) :
    Tiled hdr' prev p ts := by
  induction ts generalizing prev p with
  | nil => trivial
  | cons t ts ih =>
    obtain ⟨hp, hts⟩ := h
    exact ⟨(heq p List.mem_cons_self).trans hp,
      ih hts fun q hq => heq q (List.mem_cons_of_mem _ hq)⟩

/-- Tiles get another tile in front: the first of them is told. -/
theorem tiled_relink {prev' : Nat} (h : Tiled hdr prev p ts)
    (hfirst : ts ≠ [] → hdr' p = { hdr p with prev := prev' })
    (heq : ∀ q ∈ starts p ts, q ≠ p → hdr' q = hdr q) (hlen : ∀ t ∈ ts, 0 < t.len) :
    Tiled hdr' prev' p ts := by
  cases ts with
  | nil => trivial
  | cons t ts =>
    obtain ⟨hp, hts⟩ := h
    refine ⟨by rw [hfirst (List.cons_ne_nil _ _), hp], hts.congr fun q hq => ?_⟩
    have hlt := mem_starts_le hq
    have hpos := hlen t List.mem_cons_self
    exact heq q (List.mem_cons_of_mem _ hq) (by omega)

/-! ## The first free tile -/

/-- Cutting at the first free tile: everything in front is in use. -/
theorem exists_firstFree (p : Nat) (ts : List Tile) :
    ∃ xs ys, ts = xs ++ ys ∧ (∀ t ∈ xs, t.used = true) ∧ firstFree p ts = p + total xs ∧
      ∀ t ∈ ys.head?, t.used = false := by
  induction ts generalizing p with
  | nil => exact ⟨[], [], rfl, by simp, rfl, by simp⟩
  | cons t ts ih =>
    by_cases ht : t.used = true
    · obtain ⟨xs, ys, rfl, hused, hfirst, hhead⟩ := ih (p + t.len)
      refine ⟨t :: xs, ys, rfl, ?_, ?_, hhead⟩
      · exact List.forall_mem_cons.mpr ⟨ht, hused⟩
      · rw [firstFree, if_pos ht, hfirst, total_cons, Nat.add_assoc]
    · refine ⟨[], t :: ts, rfl, by simp, ?_, by simpa using ht⟩
      rw [firstFree, if_neg ht]
      rfl

theorem le_firstFree (p : Nat) (ts : List Tile) : p ≤ firstFree p ts := by
  obtain ⟨xs, ys, rfl, -, hfirst, -⟩ := exists_firstFree p ts
  rw [hfirst]
  exact Nat.le_add_right _ _

theorem firstFree_append_congr {us' : List Tile}
    (h : firstFree (p + total ts) us = firstFree (p + total ts) us') :
    firstFree p (ts ++ us) = firstFree p (ts ++ us') := by
  induction ts generalizing p with
  | nil => exact h
  | cons t ts ih =>
    rw [total_cons, ← Nat.add_assoc] at h
    rw [List.cons_append, List.cons_append, firstFree, firstFree, ih h]

/-- The first free tile once one in use has become free. -/
theorem firstFree_freed (p : Nat) (ts us : List Tile) (ht : t.used = true) :
    firstFree p (ts ++ ⟨t.len, none⟩ :: us) =
      min (p + total ts) (firstFree p (ts ++ t :: us)) := by
  induction ts generalizing p with
  | nil =>
    rw [List.nil_append, List.nil_append, firstFree, firstFree, if_pos ht, total_nil]
    exact (Nat.min_eq_left ((Nat.le_add_right _ _).trans (le_firstFree _ _))).symm
  | cons x ts ih =>
    rw [List.cons_append, List.cons_append, firstFree, firstFree, ih, total_cons, Nat.add_assoc]
    split_ifs
    · rfl
    · exact (Nat.min_eq_right (Nat.le_add_right _ _)).symm

/-- ... once its rest has become free ... -/
theorem firstFree_split (p l' n : Nat) (ts us : List Tile) {l : Nat} (ht : t.used = true)
    (hl : l ≤ t.len) : firstFree p (ts ++ ⟨l, some n⟩ :: ⟨l', none⟩ :: us) =
      min (p + total ts + l) (firstFree p (ts ++ t :: us)) := by
  induction ts generalizing p with
  | nil =>
    have := le_firstFree (p + t.len) us
    simp only [List.nil_append, firstFree, used_some, used_none, ht, if_true, total_nil,
      Bool.false_eq_true, if_false]
    omega
  | cons x ts ih =>
    rw [List.cons_append, List.cons_append, firstFree, firstFree, ih, total_cons, Nat.add_assoc p]
    split_ifs
    · rfl
    · omega

/-- ... and once its rest has become part of the free tile behind it. -/
theorem firstFree_move (p l l' n : Nat) (ts us : List Tile) (hpos : ∀ x ∈ ts, 0 < x.len)
    (ht : t.used = true) (hu : u.used = false) :
    firstFree p (ts ++ ⟨l, some n⟩ :: ⟨l', none⟩ :: us) =
      if firstFree p (ts ++ t :: u :: us) = p + total ts + t.len then p + total ts + l
      else firstFree p (ts ++ t :: u :: us) := by
  induction ts generalizing p with
  | nil => simp [firstFree, ht, hu]
  | cons x ts ih =>
    obtain ⟨hx, hts⟩ := List.forall_mem_cons.mp hpos
    rw [List.cons_append, List.cons_append, firstFree, firstFree, ih _ hts, total_cons,
      ← Nat.add_assoc p]
    by_cases hused : x.used = true
    · simp only [if_pos hused]
    · rw [if_neg hused, if_neg hused, if_neg (by omega)]

theorem firstFree_le_of_free (p : Nat) (ts us : List Tile) (ht : t.used = false) :
    firstFree p (ts ++ t :: us) ≤ p + total ts := by
  induction ts generalizing p with
  | nil => rw [List.nil_append, firstFree, if_neg (by simp [ht])]; exact Nat.le_add_right _ _
  | cons x ts ih =>
    rw [List.cons_append, firstFree, total_cons]
    split_ifs
    · exact (ih _).trans_eq (Nat.add_assoc _ _ _)
    · exact Nat.le_add_right _ _

/-- A first free tile among the first tiles does not depend on what follows them. -/
theorem firstFree_append_of_lt {us' : List Tile} (h : firstFree p (ts ++ us) < p + total ts) :
    firstFree p (ts ++ us') = firstFree p (ts ++ us) := by
  induction ts generalizing p with
  | nil => exact absurd h (Nat.not_lt.mpr (le_firstFree _ _))
  | cons t ts ih =>
    rw [List.cons_append, firstFree, total_cons, ← Nat.add_assoc] at h
    rw [List.cons_append, List.cons_append, firstFree, firstFree]
    split_ifs at h ⊢
    · exact ih h
    · rfl

/-- If the first tiles are in use, the first free one is behind them. -/
theorem firstFree_append_of_le {us' : List Tile} (hpos : ∀ t ∈ ts, 0 < t.len)
    (h : p + total ts ≤ firstFree p (ts ++ us)) :
    firstFree p (ts ++ us') = firstFree (p + total ts) us' := by
  induction ts generalizing p with
  | nil => rfl
  | cons t ts ih =>
    obtain ⟨ht, hts⟩ := List.forall_mem_cons.mp hpos
    rw [List.cons_append, firstFree, total_cons, ← Nat.add_assoc] at h
    rw [List.cons_append, firstFree, total_cons, ← Nat.add_assoc]
    split_ifs at h ⊢
    · exact ih hts h
    · omega

theorem len_le_total (ht : t ∈ ts) : t.len ≤ total ts := by
  obtain ⟨xs, ys, rfl⟩ := List.append_of_mem ht
  rw [total_append, total_cons]
  omega

theorem length_mul_le {least : Nat} (h : ∀ t ∈ ts, least ≤ t.len) :
    ts.length * least ≤ total ts := by
  induction ts with
  | nil => simp
  | cons t ts ih =>
    obtain ⟨ht, hts⟩ := List.forall_mem_cons.mp h
    rw [List.length_cons, Nat.succ_mul, total_cons]
    have := ih hts
    omega

/-- The length of the tiles in use. -/
def usedBytes (ts : List Tile) : Nat := total (ts.filter Tile.used)

@[simp] theorem usedBytes_nil : usedBytes [] = 0 := rfl

theorem usedBytes_cons (t : Tile) (ts : List Tile) :
    usedBytes (t :: ts) = (if t.used then t.len else 0) + usedBytes ts := by
  unfold usedBytes
  rw [List.filter_cons]
  split_ifs
  · rw [total_cons]
  · rw [Nat.zero_add]

theorem usedBytes_append (ts us : List Tile) :
    usedBytes (ts ++ us) = usedBytes ts + usedBytes us := by
  unfold usedBytes
  rw [List.filter_append, total_append]

theorem usedBytes_le_total (ts : List Tile) : usedBytes ts ≤ total ts := by
  induction ts with
  | nil => exact le_rfl
  | cons t ts ih =>
    rw [usedBytes_cons, total_cons]
    split_ifs <;> omega

/-! ## Allocation, freeing and shrinking on the tiles

`hd` is the length of a link, `least` the length of the smallest tile and `al` the alignment. -/

/-- A free tile takes in a free tile behind it. -/
def join (t : Tile) : List Tile → List Tile
  | [] => [t]
  | u :: us => if t.used = false ∧ u.used = false then ⟨t.len + u.len, none⟩ :: us else t :: u :: us

/-- The tile is free and has room for `size` bytes. -/
def Tile.Fits (hd size : Nat) (t : Tile) : Prop := t.used = false ∧ size + hd ≤ t.len

instance Tile.Fits.instDecidable (hd size : Nat) (t : Tile) : Decidable (t.Fits hd size) :=
  inferInstanceAs (Decidable (_ ∧ _))

/-- What becomes of a tile that is given to an owner: the rest is split off if it is a tile. -/
def carve (hd least size n : Nat) (t : Tile) : List Tile :=
  if size + hd + least ≤ t.len then [⟨size + hd, some n⟩, ⟨t.len - (size + hd), none⟩]
  else [⟨t.len, some n⟩]

/-- First fit: where the tile begins that was given away, and the tiles after. -/
def allot (hd least size n : Nat) : List Tile → Option (Nat × List Tile)
  | [] => none
  | t :: ts =>
    if t.Fits hd size then some (0, carve hd least size n t ++ ts)
    else (allot hd least size n ts).map fun r => (t.len + r.1, t :: r.2)

/-- The tile at `p` becomes free. -/
def release : Nat → List Tile → List Tile
  | _, [] => []
  | p, t :: ts => if p = 0 then join ⟨t.len, none⟩ ts else join t (release (p - t.len) ts)

/-- A tile in use gives back what is behind its first `size` bytes, to the free tile that follows or
as a tile of its own; what is too small for that it keeps. -/
def trimmed (hd least size n : Nat) (t : Tile) : List Tile → List Tile
  | [] => carve hd least size n t
  | u :: us =>
    if u.used = false then
      ⟨size + hd, some n⟩ :: ⟨t.len - (size + hd) + u.len, none⟩ :: us
    else carve hd least size n t ++ u :: us

variable {hd least al size n : Nat} {xs ys : List Tile}

theorem allot_eq_none : allot hd least size n ts = none ↔ ∀ t ∈ ts, ¬ t.Fits hd size := by
  induction ts with
  | nil => simp [allot]
  | cons t ts ih =>
    rw [allot, List.forall_mem_cons]
    split_ifs with h
    · simp [h]
    · simp [h, ih]

/-- The tile that is given away is the first that fits. -/
theorem allot_eq_some {q : Nat} {us : List Tile} (h : allot hd least size n ts = some (q, us)) :
    ∃ xs t ys, ts = xs ++ t :: ys ∧ q = total xs ∧ (∀ x ∈ xs, ¬ x.Fits hd size) ∧
      t.Fits hd size ∧ us = xs ++ (carve hd least size n t ++ ys) := by
  induction ts generalizing q us with
  | nil => cases h
  | cons t ts ih =>
    rw [allot] at h
    split_ifs at h with hfit
    · obtain ⟨rfl, rfl⟩ := Prod.mk.inj (Option.some.inj h)
      exact ⟨[], t, ts, rfl, rfl, by simp, hfit, rfl⟩
    · obtain ⟨⟨q', us'⟩, hr, he⟩ := Option.map_eq_some_iff.mp h
      obtain ⟨rfl, rfl⟩ := Prod.mk.inj he
      obtain ⟨xs, u, ys, rfl, rfl, hno, hu, rfl⟩ := ih hr
      exact ⟨t :: xs, u, ys, rfl, total_cons.symm, List.forall_mem_cons.mpr ⟨hfit, hno⟩, hu, rfl⟩

theorem allot_append (hno : ∀ x ∈ xs, ¬ x.Fits hd size) :
    allot hd least size n (xs ++ ys) =
      (allot hd least size n ys).map fun r => (total xs + r.1, xs ++ r.2) := by
  induction xs with
  | nil => simp
  | cons x xs ih =>
    rw [List.cons_append, allot, if_neg (hno x List.mem_cons_self),
      ih fun y hy => hno y (List.mem_cons_of_mem _ hy), Option.map_map]
    congr 1
    funext r
    simp [Nat.add_assoc]

theorem release_append (hpos : ∀ x ∈ xs, 0 < x.len) :
    release (total xs) (xs ++ t :: ys) = xs.foldr join (join ⟨t.len, none⟩ ys) := by
  induction xs with
  | nil => rfl
  | cons x xs ih =>
    have hx := hpos x List.mem_cons_self
    rw [List.cons_append, release, total_cons, if_neg (by omega), Nat.add_sub_cancel_left,
      ih fun y hy => hpos y (List.mem_cons_of_mem _ hy), List.foldr_cons]

/-- Shrinking to the same size. -/
theorem trimmed_of_eq (hleast : 0 < least) (h : size + hd = t.len) :
    trimmed hd least size n t ys = ⟨t.len, some n⟩ :: ys := by
  have hcarve : carve hd least size n t = [⟨t.len, some n⟩] := if_neg (by omega)
  cases ys with
  | nil => exact hcarve
  | cons u us =>
    rw [trimmed, hcarve, h, Nat.sub_self, Nat.zero_add]
    split_ifs with hu
    · have : u.owner = none := by simpa [Tile.used] using hu
      rw [← this]
    · rfl

theorem trimmed_of_used (hys : ∀ u ∈ ys.head?, u.used = true) :
    trimmed hd least size n t ys = carve hd least size n t ++ ys := by
  cases ys with
  | nil => rw [trimmed, List.append_nil]
  | cons u us => rw [trimmed, if_neg (by simp [hys u rfl])]

/-! ## What the operations keep -/

/-- Two neighbours are not both free. -/
def Neighbours (t u : Tile) : Prop := t.used = true ∨ u.used = true

/-- A tile that is big enough, for its owner too, and aligned. -/
structure Tile.Sound (hd least al : Nat) (t : Tile) : Prop where
  least_le : least ≤ t.len
  aligned : al ∣ t.len
  fits : ∀ n ∈ t.owner, n + hd ≤ t.len

/-- The invariant of the tiles. -/
structure Snug (hd least al : Nat) (ts : List Tile) : Prop where
  sound : ∀ t ∈ ts, t.Sound hd least al
  apart : ts.IsChain Neighbours

theorem usedBytes_join (t : Tile) (ts : List Tile) :
    usedBytes (join t ts) = usedBytes (t :: ts) := by
  cases ts with
  | nil => rfl
  | cons u us =>
    rw [join]
    split_ifs with hf
    · simp [usedBytes_cons, hf]
    · rfl

theorem firstFree_join (p : Nat) (t : Tile) (ts : List Tile) :
    firstFree p (join t ts) = firstFree p (t :: ts) := by
  cases ts with
  | nil => rfl
  | cons u us =>
    rw [join]
    split_ifs with hf
    · simp [firstFree, hf]
    · rfl

/-- Joining changes neither what is in use nor where the first free tile is. -/
theorem usedBytes_release (p : Nat) (ht : t.used = true) (hpos : ∀ x ∈ xs, 0 < x.len) :
    usedBytes (release (total xs) (xs ++ t :: ys)) + t.len = usedBytes (xs ++ t :: ys) ∧
      firstFree p (release (total xs) (xs ++ t :: ys)) =
        min (p + total xs) (firstFree p (xs ++ t :: ys)) := by
  have hfold : ∀ (xs l : List Tile) (p : Nat), usedBytes (xs.foldr join l) = usedBytes (xs ++ l) ∧
      firstFree p (xs.foldr join l) = firstFree p (xs ++ l) := by
    intro xs l
    induction xs with
    | nil => exact fun p => ⟨rfl, rfl⟩
    | cons x xs ih =>
      intro p
      rw [List.foldr_cons, usedBytes_join, firstFree_join, List.cons_append, usedBytes_cons,
        usedBytes_cons, firstFree, firstFree, (ih p).1, (ih (p + x.len)).2]
      exact ⟨rfl, rfl⟩
  obtain ⟨hused, hfree⟩ := hfold xs (join ⟨t.len, none⟩ ys) p
  rw [release_append hpos, hused, hfree]
  constructor
  · rw [usedBytes_append, usedBytes_append, usedBytes_join, usedBytes_cons, usedBytes_cons,
      if_pos ht, used_none]
    simp only [Bool.false_eq_true, if_false]
    omega
  · rw [← firstFree_freed p xs ys ht]
    exact firstFree_append_congr (firstFree_join _ _ _)

theorem dvd_total (h : ∀ t ∈ ts, al ∣ t.len) : al ∣ total ts := by
  induction ts with
  | nil => exact Nat.dvd_zero al
  | cons t ts ih =>
    obtain ⟨ht, hts⟩ := List.forall_mem_cons.mp h
    rw [total_cons]
    exact Nat.dvd_add ht (ih hts)

/-- Joining leaves no two free neighbours. -/
theorem isChain_join (h : ts.IsChain Neighbours) : (join t ts).IsChain Neighbours := by
  cases ts with
  | nil => exact List.isChain_singleton t
  | cons u us =>
    rw [join]
    split_ifs with hfree
    · -- the tile behind the one that was taken in is in use
      cases us with
      | nil => exact List.isChain_singleton _
      | cons v vs =>
        obtain ⟨huv, hvs⟩ := List.isChain_cons_cons.mp h
        refine List.isChain_cons_cons.mpr ⟨Or.inr ?_, hvs⟩
        exact huv.resolve_left (by simp [hfree.2])
    · refine List.isChain_cons_cons.mpr ⟨?_, h⟩
      unfold Neighbours
      cases ht : t.used
      · exact Or.inr (by simpa [ht] using hfree)
      · exact Or.inl rfl

theorem sound_join (ht : t.Sound hd least al) (hts : ∀ u ∈ ts, u.Sound hd least al) :
    ∀ u ∈ join t ts, u.Sound hd least al := by
  cases ts with
  | nil => exact List.forall_mem_singleton.mpr ht
  | cons u us =>
    obtain ⟨hu, hus⟩ := List.forall_mem_cons.mp hts
    rw [join]
    split_ifs
    · refine List.forall_mem_cons.mpr ⟨⟨?_, ?_, fun n hn => by cases hn⟩, hus⟩
      · exact ht.least_le.trans (Nat.le_add_right _ _)
      · exact Nat.dvd_add ht.aligned hu.aligned
    · exact List.forall_mem_cons.mpr ⟨ht, hts⟩

theorem Tile.Sound.free (ht : t.Sound hd least al) : (⟨t.len, none⟩ : Tile).Sound hd least al :=
  ⟨ht.least_le, ht.aligned, fun n hn => by cases hn⟩

theorem Snug.tail (h : Snug hd least al (t :: ts)) : Snug hd least al ts :=
  ⟨fun u hu => h.sound u (List.mem_cons_of_mem _ hu), List.isChain_of_isChain_cons h.apart⟩

/-- **Freeing keeps the tiles snug.** -/
theorem Snug.release (h : Snug hd least al ts) (p : Nat) : Snug hd least al (release p ts) := by
  induction ts generalizing p with
  | nil => exact h
  | cons t ts ih =>
    have ht := h.sound t List.mem_cons_self
    rw [Lib.release]
    split_ifs
    · exact ⟨sound_join ht.free h.tail.sound, isChain_join h.tail.apart⟩
    · have hr := ih h.tail (p - t.len)
      exact ⟨sound_join ht hr.sound, isChain_join hr.apart⟩

/-- The last tile of a run may become used. -/
theorem isChain_concat {c c' : Tile} (h : (xs ++ [c]).IsChain Neighbours)
    (hused : c.used = true → c'.used = true) : (xs ++ [c']).IsChain Neighbours := by
  obtain ⟨hxs, -, hlast⟩ := List.isChain_append.mp h
  refine List.isChain_append.mpr ⟨hxs, List.isChain_singleton _, ?_⟩
  intro x hx y hy
  obtain rfl : c' = y := by simpa using hy
  exact (hlast x hx c rfl).imp_right hused

/-- A free tile is followed by one in use. -/
theorem isChain_cons_free {c : Tile} (h : (t :: ys).IsChain Neighbours) (ht : t.used = false) :
    (c :: ys).IsChain Neighbours := by
  cases ys with
  | nil => exact List.isChain_singleton c
  | cons y ys =>
    obtain ⟨hty, hys⟩ := List.isChain_cons_cons.mp h
    exact List.isChain_cons_cons.mpr ⟨Or.inr (hty.resolve_left (by simp [ht])), hys⟩

/-- A tile in use can stand before anything. -/
theorem isChain_cons_used {c : Tile} (h : ys.IsChain Neighbours) (hc : c.used = true) :
    (c :: ys).IsChain Neighbours := by
  cases ys with
  | nil => exact List.isChain_singleton c
  | cons y ys => exact List.isChain_cons_cons.mpr ⟨Or.inl hc, h⟩

/-- The requests the operations are for. -/
structure Request (hd least al size n : Nat) : Prop where
  least_le : least ≤ size + hd
  aligned : al ∣ size + hd
  enough : n ≤ size

theorem sound_carve (ht : t.Sound hd least al) (hreq : Request hd least al size n)
    (hfit : size + hd ≤ t.len) : ∀ u ∈ carve hd least size n t, u.Sound hd least al := by
  have hn := hreq.enough
  unfold carve
  split_ifs with hsplit
  · refine List.forall_mem_cons.mpr ⟨⟨hreq.least_le, hreq.aligned, ?_⟩,
      List.forall_mem_singleton.mpr ⟨?_, Nat.dvd_sub ht.aligned hreq.aligned, fun m hm => by cases hm⟩⟩
    · rintro m ⟨⟩
      exact Nat.add_le_add_right hn hd
    · show least ≤ t.len - (size + hd)
      omega
  · refine List.forall_mem_singleton.mpr ⟨ht.least_le, ht.aligned, ?_⟩
    rintro m ⟨⟩
    show n + hd ≤ t.len
    omega

/-- What is carved out begins with the owner's tile. -/
theorem carve_eq_cons (hd least size n : Nat) (t : Tile) :
    ∃ c cs, carve hd least size n t = c :: cs ∧ c.owner = some n ∧
      (cs = [] ∨ ∃ l, cs = [⟨l, none⟩]) := by
  unfold carve
  split_ifs
  · exact ⟨_, _, rfl, rfl, Or.inr ⟨_, rfl⟩⟩
  · exact ⟨_, _, rfl, rfl, Or.inl rfl⟩

theorem isChain_carve (h : (xs ++ t :: ys).IsChain Neighbours)
    (hys : ∀ l, ((⟨l, none⟩ : Tile) :: ys).IsChain Neighbours) :
    (xs ++ (carve hd least size n t ++ ys)).IsChain Neighbours := by
  obtain ⟨hxs, htail⟩ := List.isChain_split.mp h
  obtain ⟨c, cs, hcarve, hc, hcs⟩ := carve_eq_cons hd least size n t
  have hused : c.used = true := by simp [Tile.used, hc]
  rw [hcarve, List.cons_append, List.isChain_split]
  refine ⟨isChain_concat hxs fun _ => hused, isChain_cons_used ?_ hused⟩
  rcases hcs with rfl | ⟨l, rfl⟩
  · exact List.isChain_of_isChain_cons htail
  · exact hys l

/-- **Allocation keeps the tiles snug.** -/
theorem Snug.allot (h : Snug hd least al ts) (hreq : Request hd least al size n) {q : Nat}
    (ha : allot hd least size n ts = some (q, us)) : Snug hd least al us := by
  obtain ⟨xs, t, ys, rfl, -, -, hfit, rfl⟩ := allot_eq_some ha
  have ht := h.sound t (by simp)
  refine ⟨?_, isChain_carve h.apart fun l =>
    isChain_cons_free (List.isChain_split.mp h.apart).2 hfit.1⟩
  intro u hu
  rcases List.mem_append.mp hu with hu | hu
  · exact h.sound u (List.mem_append_left _ hu)
  rcases List.mem_append.mp hu with hu | hu
  · exact sound_carve ht hreq hfit.2 u hu
  · exact h.sound u (List.mem_append_right _ (List.mem_cons_of_mem _ hu))

theorem Snug.trimmed (h : Snug hd least al (xs ++ t :: ys)) (hreq : Request hd least al size n)
    (hfit : size + hd ≤ t.len) : Snug hd least al (xs ++ trimmed hd least size n t ys) := by
  have ht := h.sound t (by simp)
  have hxs : ∀ u ∈ xs, u.Sound hd least al := fun u hu => h.sound u (List.mem_append_left _ hu)
  have hys : ∀ u ∈ ys, u.Sound hd least al := fun u hu =>
    h.sound u (List.mem_append_right _ (List.mem_cons_of_mem _ hu))
  obtain ⟨hchain, htail⟩ := List.isChain_split.mp h.apart
  have hall : ∀ l : List Tile, (∀ u ∈ l, u.Sound hd least al) →
      ∀ u ∈ xs ++ l, u.Sound hd least al := fun l hl u hu =>
    (List.mem_append.mp hu).elim (hxs u) (hl u)
  cases ys with
  | nil =>
    refine ⟨hall _ (sound_carve ht hreq hfit), ?_⟩
    have := @isChain_carve t hd least size n xs [] h.apart fun l => List.isChain_singleton _
    rwa [List.append_nil] at this
  | cons u us =>
    obtain ⟨hu, hus⟩ := List.forall_mem_cons.mp hys
    rw [Lib.trimmed]
    split_ifs with hfree
    · have hmine : (⟨size + hd, some n⟩ : Tile).Sound hd least al := by
        refine ⟨hreq.least_le, hreq.aligned, ?_⟩
        rintro m ⟨⟩
        exact Nat.add_le_add_right hreq.enough hd
      have hrest : (⟨t.len - (size + hd) + u.len, none⟩ : Tile).Sound hd least al :=
        ⟨hu.least_le.trans (Nat.le_add_left _ _),
          Nat.dvd_add (Nat.dvd_sub ht.aligned hreq.aligned) hu.aligned, fun m hm => by cases hm⟩
      refine ⟨hall _ (List.forall_mem_cons.mpr ⟨hmine, List.forall_mem_cons.mpr ⟨hrest, hus⟩⟩), ?_⟩
      rw [List.isChain_split]
      exact ⟨isChain_concat hchain fun _ => rfl,
        isChain_cons_used (isChain_cons_free (List.isChain_of_isChain_cons htail) hfree) rfl⟩
    · refine ⟨hall _ fun v hv => ?_, isChain_carve h.apart fun l => ?_⟩
      · exact (List.mem_append.mp hv).elim (sound_carve ht hreq hfit v) (hys v)
      · exact List.isChain_cons_cons.mpr
          ⟨Or.inr (by simpa using hfree), List.isChain_of_isChain_cons htail⟩

/-- A tile that does not get bigger in front of its neighbour is not joined to it. -/
theorem foldr_join {c : Tile} (h : (xs ++ [c]).IsChain Neighbours) :
    xs.foldr join (c :: ys) = xs ++ c :: ys := by
  induction xs with
  | nil => rfl
  | cons x xs ih =>
    rw [List.foldr_cons, ih (List.isChain_of_isChain_cons h), List.cons_append]
    have hne : ∀ y l, xs ++ c :: ys = y :: l → Neighbours x y := by
      intro y l hl
      cases xs with
      | nil =>
        obtain ⟨rfl, -⟩ := List.cons.inj hl
        exact (List.isChain_cons_cons.mp h).1
      | cons x' xs =>
        obtain ⟨rfl, -⟩ := List.cons.inj hl
        exact (List.isChain_cons_cons.mp h).1
    cases hl : xs ++ c :: ys with
    | nil => simp at hl
    | cons y l =>
      rw [join, if_neg]
      rintro ⟨hx, hy⟩
      rcases hne y l hl with hu | hu
      · rw [hx] at hu
        cases hu
      · rw [hy] at hu
        cases hu

theorem join_eq_cons (t : Tile) (ts : List Tile) :
    ∃ c cs, join t ts = c :: cs ∧ c.used = t.used := by
  cases ts with
  | nil => exact ⟨t, [], rfl, rfl⟩
  | cons u us =>
    rw [join]
    split_ifs with hf
    · exact ⟨_, _, rfl, by rw [hf.1]; rfl⟩
    · exact ⟨t, _, rfl, rfl⟩

/-- Joining looks no further than the tile in front. -/
theorem foldr_join_concat {x : Tile} (h : (xs ++ [x]).IsChain Neighbours) (l : List Tile) :
    (xs ++ [x]).foldr join l = xs ++ join x l := by
  obtain ⟨c, cs, hc, hused⟩ := join_eq_cons x l
  rw [List.foldr_append, List.foldr_cons, List.foldr_nil, hc]
  exact foldr_join (isChain_concat h fun hx => hused.trans hx)

/-! ## What the owners see -/

/-- The owners' bytes: where they begin, behind the link, and how many there are. -/
def owned (hd p : Nat) : List Tile → List (Nat × Nat)
  | [] => []
  | t :: ts => (t.owner.map fun n => (p + hd, n)).toList ++ owned hd (p + t.len) ts

theorem owned_append (p : Nat) (ts us : List Tile) :
    owned hd p (ts ++ us) = owned hd p ts ++ owned hd (p + total ts) us := by
  induction ts generalizing p with
  | nil => rfl
  | cons t ts ih =>
    rw [List.cons_append, owned, owned, ih, total_cons, List.append_assoc, Nat.add_assoc]

theorem owned_cons_free (p l : Nat) (ts : List Tile) :
    owned hd p (⟨l, none⟩ :: ts) = owned hd (p + l) ts := rfl

theorem owned_cons_some (p l n : Nat) (ts : List Tile) :
    owned hd p (⟨l, some n⟩ :: ts) = (p + hd, n) :: owned hd (p + l) ts := rfl

theorem Tile.eq_of_free (ht : t.used = false) : t = ⟨t.len, none⟩ := by
  have : t.owner = none := by simpa [Tile.used] using ht
  rw [← this]

theorem owned_join (p : Nat) (t : Tile) (ts : List Tile) :
    owned hd p (join t ts) = owned hd p (t :: ts) := by
  cases ts with
  | nil => rfl
  | cons u us =>
    rw [join]
    split_ifs with hf
    · rw [Tile.eq_of_free hf.1, Tile.eq_of_free hf.2, owned_cons_free, owned_cons_free,
        owned_cons_free, Nat.add_assoc]
    · rfl

theorem owned_carve (p : Nat) (hfit : size + hd ≤ t.len) :
    owned hd p (carve hd least size n t ++ ys) = (p + hd, n) :: owned hd (p + t.len) ys := by
  unfold carve
  split_ifs
  · rw [List.cons_append, List.cons_append, List.nil_append, owned_cons_some, owned_cons_free,
      Nat.add_assoc p, Nat.add_sub_cancel' hfit]
  · rfl

theorem owned_trimmed (p : Nat) (hfit : size + hd ≤ t.len) :
    owned hd p (trimmed hd least size n t ys) = (p + hd, n) :: owned hd (p + t.len) ys := by
  cases ys with
  | nil =>
    have := @owned_carve t hd least size n [] p hfit
    rwa [List.append_nil] at this
  | cons u us =>
    rw [trimmed]
    split_ifs with hu
    · have hsum : p + (size + hd) + (t.len - (size + hd) + u.len) = p + t.len + u.len := by omega
      rw [owned_cons_some, owned_cons_free, hsum, Tile.eq_of_free hu, owned_cons_free]
    · exact owned_carve p hfit

/-- Freeing takes the owner's bytes out. -/
theorem owned_release (p : Nat) (hpos : ∀ x ∈ xs, 0 < x.len) :
    owned hd p (release (total xs) (xs ++ t :: ys)) =
      owned hd p xs ++ owned hd (p + total xs + t.len) ys := by
  have hfold : ∀ (xs l : List Tile) (p : Nat),
      owned hd p (xs.foldr join l) = owned hd p (xs ++ l) := by
    intro xs l
    induction xs with
    | nil => exact fun _ => rfl
    | cons x xs ih =>
      intro p
      rw [List.foldr_cons, owned_join, List.cons_append, owned, owned, ih]
  rw [release_append hpos, hfold, owned_append, owned_join, owned_cons_free]

/-- The owner's bytes are those of a tile. -/
theorem exists_of_mem_owned {p q : Nat} (h : (q, n) ∈ owned hd p ts) :
    ∃ xs t ys, ts = xs ++ t :: ys ∧ q = p + total xs + hd ∧ t.owner = some n := by
  induction ts generalizing p with
  | nil => cases h
  | cons t ts ih =>
    rcases List.mem_append.mp h with h | h
    · obtain ⟨m, hm, he⟩ : ∃ m, t.owner = some m ∧ (p + hd, m) = (q, n) := by simpa using h
      obtain ⟨rfl, rfl⟩ := Prod.mk.inj he
      exact ⟨[], t, ts, rfl, rfl, hm⟩
    · obtain ⟨xs, u, ys, rfl, rfl, hu⟩ := ih h
      exact ⟨t :: xs, u, ys, rfl, by rw [total_cons, Nat.add_assoc p], hu⟩

/-- The owners' bytes lie inside the tiles, behind the links ... -/
theorem le_of_mem_owned {p q : Nat} (hts : ∀ t ∈ ts, t.Sound hd least al)
    (h : (q, n) ∈ owned hd p ts) : p + hd ≤ q ∧ q + n ≤ p + total ts := by
  obtain ⟨xs, t, ys, rfl, rfl, ht⟩ := exists_of_mem_owned h
  have := (hts t (by simp)).fits n ht
  rw [total_append, total_cons]
  omega

/-- ... one behind the other ... -/
theorem owned_pairwise (p : Nat) (hts : ∀ t ∈ ts, t.Sound hd least al) :
    (owned hd p ts).Pairwise fun a b => a.1 + a.2 + hd ≤ b.1 := by
  induction ts generalizing p with
  | nil => exact List.Pairwise.nil
  | cons t ts ih =>
    obtain ⟨ht, hrest⟩ := List.forall_mem_cons.mp hts
    rw [owned]
    cases ho : t.owner with
    | none => exact ih (p + t.len) hrest
    | some n =>
      refine List.pairwise_cons.mpr ⟨fun b hb => ?_, ih (p + t.len) hrest⟩
      have hfit := ht.fits n ho
      have := (le_of_mem_owned hrest hb).1
      show p + hd + n + hd ≤ b.1
      omega

/-- ... and no link is among them. -/
theorem apart_of_mem_owned {p q a w : Nat} (hts : ∀ t ∈ ts, t.Sound hd least al)
    (hleast : hd ≤ least) (h : (q, n) ∈ owned hd p ts) (hw : w ∈ starts p ts) (hq : q ≤ a)
    (ha : a < q + n) : a < w ∨ w + hd ≤ a := by
  obtain ⟨xs, t, ys, rfl, rfl, ht⟩ := exists_of_mem_owned h
  have hfit := (hts t (by simp)).fits n ht
  rcases mem_starts_append.mp hw with hw | hw
  · have hxs : ∀ x ∈ xs, hd ≤ x.len := fun x hx =>
      hleast.trans (hts x (List.mem_append_left _ hx)).least_le
    have := mem_starts_add_le hxs hw
    omega
  rcases List.mem_cons.mp hw with rfl | hw
  · omega
  · have := mem_starts_le hw
    omega

/-- Nothing is owned when nothing is in use. -/
theorem usedBytes_eq_zero_iff (p : Nat) (hpos : ∀ t ∈ ts, 0 < t.len) :
    usedBytes ts = 0 ↔ owned hd p ts = [] := by
  induction ts generalizing p with
  | nil => exact iff_of_true rfl rfl
  | cons t ts ih =>
    obtain ⟨ht, hts⟩ := List.forall_mem_cons.mp hpos
    rw [usedBytes_cons, owned, Nat.add_eq_zero_iff, List.append_eq_nil_iff, ih _ hts]
    refine and_congr_left fun _ => ?_
    cases ho : t.owner with
    | none => simp [Tile.used, ho]
    | some n => simp [Tile.used, ho, Nat.ne_of_gt ht]

/-- A snug tiling in which nothing is owned is one free tile. -/
theorem Snug.eq_singleton (h : Snug hd least al ts) (hne : ts ≠ []) {p : Nat}
    (hnone : owned hd p ts = []) : ts = [⟨total ts, none⟩] := by
  cases ts with
  | nil => exact absurd rfl hne
  | cons t ts =>
    rw [owned, List.append_eq_nil_iff] at hnone
    have ht : t.used = false := by
      cases ho : t.owner with
      | none => simp [Tile.used, ho]
      | some n => simp [ho] at hnone
    cases ts with
    | nil => rw [total_cons, total_nil, Nat.add_zero, ← Tile.eq_of_free ht]
    | cons u us =>
      have hu : u.used = false := by
        have := (List.append_eq_nil_iff.mp hnone.2).1
        cases ho : u.owner with
        | none => simp [Tile.used, ho]
        | some n => simp [ho] at this
      rcases (List.isChain_cons_cons.mp h.apart).1 with hc | hc
      · rw [ht] at hc
        cases hc
      · rw [hu] at hc
        cases hc

end Stm32F407.Lib
