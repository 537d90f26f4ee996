import Mathlib.Algebra.Order.Ring.Nat
import Mathlib.Data.Finset.Card
import Mathlib.Order.Interval.Finset.Nat
import Mathlib.Data.List.Perm.Basic
import Mathlib.Logic.Function.Basic

/-!
# Tables that record disjoint blocks by their length

A table of `n` entries records a list of blocks when every entry of a block holds the block's
length and every other entry holds `0`. The table itself has no block boundaries: two adjacent
blocks of one length look like any other two, so a block can only be given back by someone who
knows where it starts.

* `Records n f B`: the table `f` records the blocks `B`, which lie inside it and are apart.
* `Records.insert` / `Records.tail`: painting a free run, and clearing the run of a recorded block.
* `Records.used`: the number of nonzero entries is the sum of the block lengths.
* `fill` is the loop that writes one value into consecutive entries; `fill_eq_paint` says which
  entries it changes.
-/

namespace Stm32F407.Lib

variable {α : Type*}

/-- A run of `count` consecutive indices from `start`. -/
structure Block where
  start : Nat
  count : Nat
deriving DecidableEq, Repr

namespace Block

/-- The block owns index `i`. -/
def Has (b : Block) (i : Nat) : Prop := b.start ≤ i ∧ i < b.start + b.count

instance (b : Block) (i : Nat) : Decidable (b.Has i) :=
  inferInstanceAs (Decidable (_ ∧ _))

@[simp] theorem has_mk {a n i : Nat} : (⟨a, n⟩ : Block).Has i ↔ a ≤ i ∧ i < a + n := Iff.rfl

/-- Two blocks with no index in common, one after the other. -/
def Apart (b c : Block) : Prop := b.start + b.count ≤ c.start ∨ c.start + c.count ≤ b.start

instance (b c : Block) : Decidable (b.Apart c) := inferInstanceAs (Decidable (_ ∨ _))

theorem Apart.symm {b c : Block} (h : b.Apart c) : c.Apart b := Or.symm h

theorem Apart.not_has {b c : Block} (h : b.Apart c) {i : Nat} (hi : b.Has i) : ¬ c.Has i := by
  unfold Apart at h
  unfold Has at hi ⊢
  omega

/-- Nonempty blocks with no index in common are apart. -/
theorem apart_of_not_has {b c : Block} (hb : 0 < b.count) (hc : 0 < c.count)
    (h : ∀ i, b.Has i → ¬ c.Has i) : b.Apart c := by
  have h1 := h b.start
  have h2 := h c.start
  unfold Has at h1 h2
  unfold Apart
  omega

end Block

/-! ## Writing a run of entries -/

/-- `for (k = 0; k < n; k++) f[a + k] = v`. -/
def fill (f : Nat → α) (a : Nat) (v : α) : Nat → Nat → α
  | 0 => f
  | n + 1 => Function.update (fill f a v n) (a + n) v

/-- The table with every entry of the block set to `v`. -/
def paint (f : Nat → α) (b : Block) (v : α) : Nat → α := fun i => if b.Has i then v else f i

theorem paint_of_has {f : Nat → α} {b : Block} {v : α} {i : Nat} (h : b.Has i) :
    paint f b v i = v := if_pos h

theorem paint_of_not_has {f : Nat → α} {b : Block} {v : α} {i : Nat} (h : ¬ b.Has i) :
    paint f b v i = f i := if_neg h

/-- The loop writes exactly the entries of its block. -/
theorem fill_eq_paint (f : Nat → α) (a : Nat) (v : α) :
    ∀ n, fill f a v n = paint f ⟨a, n⟩ v
  | 0 => by
    funext i
    rw [paint_of_not_has (by rw [Block.has_mk]; omega)]
    rfl
  | n + 1 => by
    funext i
    rw [fill, fill_eq_paint f a v n, Function.update_apply]
    by_cases hi : i = a + n
    · rw [if_pos hi, paint_of_has (by rw [Block.has_mk]; omega)]
    · rw [if_neg hi]
      exact if_congr (by rw [Block.has_mk, Block.has_mk]; omega) rfl rfl

/-! ## Recorded blocks -/

/-- The table `f` of `n` entries records exactly the blocks `B`. -/
structure Records (n : Nat) (f : Nat → Nat) (B : List Block) : Prop where
  pos : ∀ b ∈ B, 0 < b.count
  inside : ∀ b ∈ B, b.start + b.count ≤ n
  apart : B.Pairwise Block.Apart
  owned : ∀ b ∈ B, ∀ i, b.Has i → f i = b.count
  free : ∀ i, i < n → (∀ b ∈ B, ¬ b.Has i) → f i = 0

variable {n : Nat} {f : Nat → Nat} {B C : List Block} {b c : Block}

/-- An empty table records no block. -/
theorem records_nil (h : ∀ i, i < n → f i = 0) : Records n f [] where
  pos _ hb := absurd hb List.not_mem_nil
  inside _ hb := absurd hb List.not_mem_nil
  apart := List.Pairwise.nil
  owned _ hb := absurd hb List.not_mem_nil
  free i hi _ := h i hi

/-- Only the set of blocks matters, not the order they are listed in. -/
theorem Records.perm (h : Records n f B) (hp : B.Perm C) : Records n f C where
  pos c hc := h.pos c (hp.mem_iff.mpr hc)
  inside c hc := h.inside c (hp.mem_iff.mpr hc)
  apart := (hp.pairwise_iff fun hab => Block.Apart.symm hab).mp h.apart
  owned c hc := h.owned c (hp.mem_iff.mpr hc)
  free i hi hn := h.free i hi fun b hb => hn b (hp.mem_iff.mp hb)

/-- A run of zero entries overlaps no recorded block. -/
theorem Records.apart_of_zero (h : Records n f B) (hb : 0 < b.count)
    (hz : ∀ i, b.Has i → f i = 0) (hc : c ∈ B) : b.Apart c := by
  refine Block.apart_of_not_has hb (h.pos c hc) fun i hi hci => ?_
  have h1 := h.owned c hc i hci
  have h2 := h.pos c hc
  rw [hz i hi] at h1
  omega

/-- **Recording a new block**: painting a free run with its length. -/
theorem Records.insert (h : Records n f B) (hb : 0 < b.count) (hin : b.start + b.count ≤ n)
    (hz : ∀ i, b.Has i → f i = 0) : Records n (paint f b b.count) (b :: B) where
  pos c hc := by
    rcases List.mem_cons.mp hc with rfl | hc
    · exact hb
    · exact h.pos c hc
  inside c hc := by
    rcases List.mem_cons.mp hc with rfl | hc
    · exact hin
    · exact h.inside c hc
  apart := List.pairwise_cons.mpr ⟨fun _ hc => h.apart_of_zero hb hz hc, h.apart⟩
  owned c hc i hi := by
    rcases List.mem_cons.mp hc with rfl | hc
    · exact paint_of_has hi
    · rw [paint_of_not_has ((h.apart_of_zero hb hz hc).symm.not_has hi)]
      exact h.owned c hc i hi
  free i hi hn := by
    rw [paint_of_not_has (hn b List.mem_cons_self)]
    exact h.free i hi fun c hc => hn c (List.mem_cons_of_mem b hc)

/-- **Giving a block back**: clearing the run of the first listed block leaves the others recorded.
-/
theorem Records.tail (h : Records n f (b :: B)) : Records n (paint f b 0) B where
  pos c hc := h.pos c (List.mem_cons_of_mem b hc)
  inside c hc := h.inside c (List.mem_cons_of_mem b hc)
  apart := (List.pairwise_cons.mp h.apart).2
  owned c hc i hi := by
    have hbc := (List.pairwise_cons.mp h.apart).1 c hc
    rw [paint_of_not_has (hbc.symm.not_has hi)]
    exact h.owned c (List.mem_cons_of_mem b hc) i hi
  free i hi hn := by
    by_cases hb : b.Has i
    · exact paint_of_has hb
    · rw [paint_of_not_has hb]
      refine h.free i hi fun c hc => ?_
      rcases List.mem_cons.mp hc with rfl | hc
      · exact hb
      · exact hn c hc

/-- Two recorded blocks with one start are the same block. -/
theorem Records.eq_of_start (h : Records n f B) (hb : b ∈ B) (hc : c ∈ B)
    (hs : b.start = c.start) : b = c := by
  have h1 := h.owned b hb b.start ⟨le_refl _, by have := h.pos b hb; omega⟩
  have h2 := h.owned c hc c.start ⟨le_refl _, by have := h.pos c hc; omega⟩
  rw [hs, h2] at h1
  cases b
  cases c
  simp_all

/-- The recorded blocks determine the table. -/
theorem Records.entry_eq {g : Nat → Nat} (h : Records n f B) (h' : Records n g B) {i : Nat}
    (hi : i < n) : f i = g i := by
  by_cases hb : ∃ b ∈ B, b.Has i
  · obtain ⟨b, hb, hhas⟩ := hb
    rw [h.owned b hb i hhas, h'.owned b hb i hhas]
  · have hno : ∀ b ∈ B, ¬ b.Has i := fun b hmem hhas => hb ⟨b, hmem, hhas⟩
    rw [h.free i hi hno, h'.free i hi hno]

/-- **Nonzero entries are owned entries**: their number is the sum of the block lengths. -/
theorem Records.used : ∀ {B : List Block} {f : Nat → Nat}, Records n f B →
    ((Finset.range n).filter fun i => f i ≠ 0).card = (B.map Block.count).sum
  | [], f, h => by
    rw [List.map_nil, List.sum_nil, Finset.card_eq_zero, Finset.filter_eq_empty_iff]
    intro i hi
    rw [Finset.mem_range] at hi
    rw [not_not]
    exact h.free i hi fun b hb => absurd hb List.not_mem_nil
  | b :: B, f, h => by
    have hsplit : ((Finset.range n).filter fun i => f i ≠ 0) =
        Finset.Ico b.start (b.start + b.count) ∪
          (Finset.range n).filter fun i => paint f b 0 i ≠ 0 := by
      ext i
      rw [Finset.mem_union, Finset.mem_filter, Finset.mem_filter, Finset.mem_range, Finset.mem_Ico]
      by_cases hi : b.Has i
      · have h1 := h.owned b List.mem_cons_self i hi
        have h2 := h.pos b List.mem_cons_self
        have h3 := h.inside b List.mem_cons_self
        rw [paint_of_has hi, h1]
        unfold Block.Has at hi
        constructor
        · exact fun _ => Or.inl hi
        · exact fun _ => ⟨by omega, by omega⟩
      · rw [paint_of_not_has hi]
        exact ⟨Or.inr, fun h' => h'.resolve_left hi⟩
    have hdisj : Disjoint (Finset.Ico b.start (b.start + b.count))
        ((Finset.range n).filter fun i => paint f b 0 i ≠ 0) := by
      rw [Finset.disjoint_left]
      intro i hi hf
      rw [Finset.mem_Ico] at hi
      rw [Finset.mem_filter] at hf
      exact hf.2 (paint_of_has hi)
    rw [hsplit, Finset.card_union_of_disjoint hdisj, Nat.card_Ico, h.tail.used, List.map_cons,
      List.sum_cons]
    omega

end Stm32F407.Lib
