import Mathlib.Data.List.Basic

/-!
# Two-cursor rings refine a bounded queue

A ring of `n` slots is shared by a producer, which fills the slot at `tail` and marks it busy, and a
consumer, which takes the slot at `head` and marks it free; both walk the ring with `nextIdx`. The
two sides look only at the busy mark of their own slot. `RingRep` relates such a ring to the queue
it implements: the slot `d` places ahead of `head` is busy iff the queue has an element `d`, which
is then what the slot holds.

* `RingRep.head_busy`, `RingRep.tail_busy`: the consumer's slot is busy iff the queue is nonempty,
  the producer's iff the queue is full.
* `RingRep.push`, `RingRep.pop`: the two sides' steps are the queue's.
* `RingRep.overwrite`: writing the producer's slot of a full ring replaces the queue's front.
-/

namespace Stm32F407.Lib

variable {α : Type*}

/-- The slot after `i` in a ring of `n`. -/
def nextIdx (n i : Nat) : Nat := if i + 1 < n then i + 1 else 0

/-- How many places `i` lies ahead of `head`. -/
def ahead (n head i : Nat) : Nat := if head ≤ i then i - head else i + n - head

theorem nextIdx_lt {n i : Nat} (h : 0 < n) : nextIdx n i < n := by
  unfold nextIdx
  split <;> omega

theorem ahead_self (n head : Nat) : ahead n head head = 0 := by simp [ahead]

theorem ahead_lt {n head i : Nat} (hh : head < n) (hi : i < n) : ahead n head i < n := by
  unfold ahead
  split <;> omega

theorem ahead_inj {n head i j : Nat} (hh : head < n) (hi : i < n) (hj : j < n)
    (h : ahead n head i = ahead n head j) : i = j := by
  unfold ahead at h
  split at h <;> split at h <;> omega

/-- Every distance below `n` is that of some slot. -/
theorem exists_ahead_eq {n head d : Nat} (hh : head < n) (hd : d < n) :
    ∃ i, i < n ∧ ahead n head i = d := by
  unfold ahead
  by_cases hw : head + d < n
  · exact ⟨head + d, hw, by rw [if_pos (Nat.le_add_right _ _)]; omega⟩
  · exact ⟨head + d - n, by omega, by rw [if_neg (by omega)]; omega⟩

/-- Advancing the head brings every other slot one place closer. -/
theorem ahead_next_head {n head i : Nat} (hh : head < n) (hi : i < n) (hne : i ≠ head) :
    ahead n (nextIdx n head) i + 1 = ahead n head i := by
  unfold ahead nextIdx
  split <;> split <;> split <;> omega

/-- Behind an advanced head, the slot just left is the farthest. -/
theorem ahead_next_self {n head : Nat} (hh : head < n) :
    ahead n (nextIdx n head) head + 1 = n := by
  unfold ahead nextIdx
  split <;> split <;> omega

/-- The slot after one that is `d < n - 1` places ahead is `d + 1` places ahead. -/
theorem ahead_nextIdx {n head i : Nat} (hh : head < n) (hi : i < n)
    (hd : ahead n head i + 1 < n) : ahead n head (nextIdx n i) = ahead n head i + 1 := by
  unfold ahead nextIdx at *
  split at hd <;> split <;> split <;> omega

/-- The slot after the farthest one is the head. -/
theorem nextIdx_of_last {n head i : Nat} (hh : head < n) (hi : i < n)
    (hd : ahead n head i + 1 = n) : nextIdx n i = head := by
  unfold ahead at hd
  unfold nextIdx
  split at hd <;> split <;> omega

/-- The ring with these busy marks, slots and cursors implements the queue `q`. -/
structure RingRep (n : Nat) (busy : Nat → Bool) (slot : Nat → α) (head tail : Nat) (q : List α) :
    Prop where
  head_lt : head < n
  tail_lt : tail < n
  len_le : q.length ≤ n
  tail_at : if q.length < n then ahead n head tail = q.length else tail = head
  view : ∀ i, i < n → q[ahead n head i]? = if busy i then some (slot i) else none

namespace RingRep

variable {n head tail : Nat} {busy busy' : Nat → Bool} {slot slot' : Nat → α} {q : List α} {x : α}

/-- An idle ring implements the empty queue. -/
theorem empty (hn : 0 < n) (hb : ∀ i, i < n → busy i = false) :
    RingRep n busy slot 0 0 ([] : List α) where
  head_lt := hn
  tail_lt := hn
  len_le := Nat.zero_le n
  tail_at := by rw [List.length_nil, if_pos hn, ahead_self]
  view i hi := by rw [hb i hi]; simp

/-- The consumer's slot is busy iff there is something to consume. -/
theorem head_busy (h : RingRep n busy slot head tail q) : busy head = true ↔ q ≠ [] := by
  have hv := h.view head h.head_lt
  rw [ahead_self] at hv
  cases hb : busy head <;> cases q <;> simp [hb] at hv ⊢

/-- What the consumer finds in its slot is the queue's front. -/
theorem head_slot (h : RingRep n busy slot head tail (x :: q)) : slot head = x := by
  have hv := h.view head h.head_lt
  rw [ahead_self, if_pos (h.head_busy.mpr (by simp))] at hv
  simpa using hv.symm

/-- The producer's slot is busy iff the ring is full. -/
theorem tail_busy (h : RingRep n busy slot head tail q) : busy tail = true ↔ q.length = n := by
  have ht := h.tail_at
  have hle := h.len_le
  have hlt := h.head_lt
  split at ht
  · rename_i hl
    have hv := h.view tail h.tail_lt
    rw [ht, List.getElem?_eq_none (Nat.le_refl _)] at hv
    cases hb : busy tail with
    | false => simp; omega
    | true => simp [hb] at hv
  · subst ht
    rw [h.head_busy]
    constructor
    · intro _; omega
    · rintro hq rfl; simp at hq; omega

/-- A slot is busy iff it lies within the queue's length of the head. -/
theorem busy_iff (h : RingRep n busy slot head tail q) {i : Nat} (hi : i < n) :
    busy i = true ↔ ahead n head i < q.length := by
  have hv := h.view i hi
  constructor
  · intro hb
    rw [if_pos hb] at hv
    exact (List.getElem?_eq_some_iff.mp hv).1
  · intro hlt
    rw [List.getElem?_eq_getElem hlt] at hv
    cases hb : busy i with
    | true => rfl
    | false => simp [hb] at hv

/-- What the busy slots hold is what the queue holds. -/
theorem forall_busy_iff (h : RingRep n busy slot head tail q) (P : α → Prop) :
    (∀ i, i < n → busy i = true → P (slot i)) ↔ ∀ x ∈ q, P x := by
  constructor
  · intro hall x hx
    obtain ⟨d, hd, rfl⟩ := List.getElem_of_mem hx
    have hdn : d < n := Nat.lt_of_lt_of_le hd h.len_le
    obtain ⟨i, hi, hid⟩ := exists_ahead_eq h.head_lt hdn
    have hb := (h.busy_iff hi).mpr (by rw [hid]; exact hd)
    have hv := h.view i hi
    rw [hid, if_pos hb, List.getElem?_eq_getElem hd] at hv
    rw [Option.some.inj hv]
    exact hall i hi hb
  · intro hall i hi hb
    have hv := h.view i hi
    rw [if_pos hb] at hv
    exact hall _ (List.mem_of_getElem? hv)

/-- **The producer's step**: fill the free slot at the tail, mark it busy and advance. -/
theorem push (h : RingRep n busy slot head tail q) (hroom : q.length < n)
    (hb : ∀ i, i < n → busy' i = (decide (i = tail) || busy i)) (hx : slot' tail = x)
    (hs : ∀ i, i < n → i ≠ tail → busy i = true → slot' i = slot i) :
    RingRep n busy' slot' head (nextIdx n tail) (q ++ [x]) := by
  have ht := h.tail_at
  rw [if_pos hroom] at ht
  have hlt := h.head_lt
  refine ⟨hlt, nextIdx_lt (by omega), by simp; omega, ?_, fun i hi => ?_⟩
  · rw [List.length_append, List.length_singleton]
    split
    · rename_i hl
      rw [ahead_nextIdx hlt h.tail_lt (by omega), ht]
    · exact nextIdx_of_last hlt h.tail_lt (by omega)
  · rw [hb i hi]
    by_cases hit : i = tail
    · subst hit
      rw [ht, hx]
      simp
    · have hne : ahead n head i ≠ q.length := fun he =>
        hit (ahead_inj hlt hi h.tail_lt (he.trans ht.symm))
      have hv := h.view i hi
      simp only [hit, decide_false, Bool.false_or]
      rcases Nat.lt_or_ge (ahead n head i) q.length with hd | hd
      · have hbi := (h.busy_iff hi).mpr hd
        rw [if_pos hbi] at hv ⊢
        rw [List.getElem?_append_left hd, hv, hs i hi hit hbi]
      · have hbi : busy i ≠ true := fun hb' => absurd ((h.busy_iff hi).mp hb') (by omega)
        rw [if_neg hbi, List.getElem?_eq_none (by simp; omega)]

/-- **The consumer's step**: mark the slot at the head free and advance. -/
theorem pop (h : RingRep n busy slot head tail (x :: q))
    (hb : ∀ i, i < n → busy' i = (!decide (i = head) && busy i))
    (hs : ∀ i, i < n → i ≠ head → busy i = true → slot' i = slot i) :
    RingRep n busy' slot' (nextIdx n head) tail q := by
  have hlt := h.head_lt
  have hle := h.len_le
  rw [List.length_cons] at hle
  refine ⟨nextIdx_lt (by omega), h.tail_lt, by omega, ?_, fun i hi => ?_⟩
  · have ht := h.tail_at
    rw [List.length_cons] at ht
    rw [if_pos (by omega)]
    split at ht
    · have hne : tail ≠ head := fun he => by rw [he, ahead_self] at ht; omega
      have := ahead_next_head hlt h.tail_lt hne
      omega
    · subst ht
      have := ahead_next_self hlt
      omega
  · rw [hb i hi]
    by_cases hih : i = head
    · subst hih
      have := ahead_next_self hlt
      rw [List.getElem?_eq_none (by omega)]
      simp
    · have hv := h.view i hi
      rw [← ahead_next_head hlt hi hih, List.getElem?_cons_succ] at hv
      simp only [hih, decide_false, Bool.not_false, Bool.true_and]
      rw [hv]
      split
      · rename_i hbi
        rw [hs i hi hih hbi]
      · rfl

/-- **A write into the producer's slot of a full ring** lands on the queue's front. -/
theorem overwrite {y : α} (h : RingRep n busy slot head tail (x :: q))
    (hfull : (x :: q).length = n) (hb : ∀ i, i < n → busy' i = busy i) (hx : slot' tail = y)
    (hs : ∀ i, i < n → i ≠ tail → slot' i = slot i) :
    RingRep n busy' slot' head tail (y :: q) := by
  have ht := h.tail_at
  rw [if_neg (by omega)] at ht
  refine ⟨h.head_lt, h.tail_lt, h.len_le, ?_, fun i hi => ?_⟩
  · have hl : (y :: q).length = n := by rw [← hfull]; rfl
    rw [if_neg (by omega)]
    exact ht
  · have hv := h.view i hi
    rw [hb i hi]
    by_cases hih : i = head
    · rw [hih, ahead_self, if_pos (h.head_busy.mpr (by simp)), ← ht, hx]
      rfl
    · have hpos : 0 < ahead n head i := Nat.pos_of_ne_zero fun h0 =>
        hih (ahead_inj h.head_lt hi h.head_lt (h0.trans (ahead_self n head).symm))
      obtain ⟨d, hd⟩ := Nat.exists_eq_succ_of_ne_zero (Nat.pos_iff_ne_zero.mp hpos)
      rw [hd, Nat.succ_eq_add_one, List.getElem?_cons_succ] at hv ⊢
      rw [hv, hs i hi (by rw [ht]; exact hih)]

end RingRep

end Stm32F407.Lib
