import Mathlib.Algebra.Order.Ring.Nat
import Mathlib.Data.List.Basic

/-!
# Spans of a sequence

A span `x` covers the places `lo x`, ..., `hi x - 1`. A list of spans is in order when each ends before
the next begins (`Before`), and chained from `a` on when the first begins at `a` and each begins where
the one in front of it ends (`Chained`).

* `Chained.eq_of_sublist`: spans that are chained and reach the end are all of them; no part of a
  chained list is chained from the same place to the same end.
* `Chained.getElem?_flatMap`: when every span carries the items of its places, the items of a chained
  list are, place by place, those of the spans.
-/

namespace Stm32F407.Lib

variable {α β : Type*} (lo hi : α → Nat)

/-- `x` ends before `y` begins. -/
def Before (x y : α) : Prop := lo x < lo y ∧ hi x ≤ lo y

/-- The spans follow each other without a hole, from `a` on. -/
def Chained : Nat → List α → Prop
  | _, [] => True
  | a, x :: xs => lo x = a ∧ Chained (hi x) xs

variable {lo hi} {a : Nat} {x y : α} {xs ys : List α}

theorem chained_cons : Chained lo hi a (x :: xs) ↔ lo x = a ∧ Chained lo hi (hi x) xs := Iff.rfl

/-- Cutting at a span. -/
theorem chained_split : Chained lo hi a (xs ++ x :: ys) ↔
    Chained lo hi a (xs ++ [x]) ∧ Chained lo hi (hi x) ys := by
  induction xs generalizing a with
  | nil => exact ⟨fun h => ⟨⟨h.1, trivial⟩, h.2⟩, fun h => ⟨h.1.1, h.2⟩⟩
  | cons z zs ih =>
    rw [List.cons_append, List.cons_append, chained_cons, chained_cons, ih, and_assoc]

/-- A span that is not the first begins behind the start. -/
theorem Chained.lt_of_mem_tail (h : Chained lo hi a (x :: xs)) (hpos : ∀ z ∈ x :: xs, lo z < hi z)
    (hy : y ∈ xs) : hi x ≤ lo y := by
  induction xs generalizing a x with
  | nil => cases hy
  | cons z zs ih =>
    obtain ⟨-, hz, hzs⟩ := h
    rcases List.mem_cons.mp hy with rfl | hy
    · exact hz.ge
    · have hzpos := hpos z (by simp)
      have := ih ⟨hz, hzs⟩ (fun w hw => hpos w (List.mem_cons_of_mem _ hw)) hy
      omega

/-- Chained spans with something in them are in order. -/
theorem Chained.pairwise (h : Chained lo hi a xs) (hpos : ∀ z ∈ xs, lo z < hi z) :
    xs.Pairwise (Before lo hi) := by
  induction xs generalizing a with
  | nil => exact List.Pairwise.nil
  | cons x xs ih =>
    refine List.pairwise_cons.mpr ⟨fun y hy => ?_, ih h.2 fun z hz => hpos z (by simp [hz])⟩
    have hle := h.lt_of_mem_tail hpos hy
    exact ⟨(hpos x (by simp)).trans_le hle, hle⟩

/-- **Chained spans that reach the end are all of them.** -/
theorem Chained.eq_of_sublist (h : Chained lo hi a xs) (hpos : ∀ z ∈ xs, lo z < hi z)
    (hsub : ys.Sublist xs) (hy : Chained lo hi a ys) (hlast : ∀ z ∈ xs.getLast?, z ∈ ys) :
    ys = xs := by
  induction xs generalizing a ys with
  | nil => exact List.sublist_nil.mp hsub
  | cons x xs ih =>
    have hposx : ∀ z ∈ xs, lo z < hi z := fun z hz => hpos z (by simp [hz])
    cases ys with
    | nil =>
      have hmem := hlast _ (List.getLast?_eq_some_getLast (List.cons_ne_nil x xs))
      cases hmem
    | cons y ys =>
      -- the first span is the only one that begins at the start
      have hhead : y = x := by
        rcases List.mem_cons.mp (hsub.subset List.mem_cons_self) with he | hmem
        · exact he
        · have hle := h.lt_of_mem_tail hpos hmem
          have := hpos x (by simp)
          have h1 := h.1
          have h2 := hy.1
          omega
      subst hhead
      have hsub' : ys.Sublist xs := List.cons_sublist_cons.mp hsub
      congr 1
      refine ih h.2 hposx hsub' hy.2 fun z hz => ?_
      have hzx : z ∈ xs := List.mem_of_mem_getLast? hz
      have hzlast : z ∈ (y :: xs).getLast? := by
        cases xs with
        | nil => cases hzx
        | cons w ws => simpa [List.getLast?_cons_cons] using hz
      rcases List.mem_cons.mp (hlast z hzlast) with rfl | hzy
      · have hle := h.lt_of_mem_tail hpos hzx
        have := hpos z (by simp)
        omega
      · exact hzy

/-- **The items of chained spans**, each with as many as it has places. -/
theorem Chained.getElem?_flatMap {f : α → List β} (h : Chained lo hi a xs)
    (hlen : ∀ z ∈ xs, hi z = lo z + (f z).length) {i : Nat} {b : β}
    (hi' : (xs.flatMap f)[i]? = some b) :
    ∃ x ∈ xs, lo x ≤ a + i ∧ a + i < hi x ∧ (f x)[a + i - lo x]? = some b := by
  induction xs generalizing a i with
  | nil => cases hi'
  | cons x xs ih =>
    obtain ⟨hx, hxs⟩ := h
    have hxlen := hlen x (by simp)
    rw [List.flatMap_cons] at hi'
    by_cases hlt : i < (f x).length
    · rw [List.getElem?_append_left hlt] at hi'
      refine ⟨x, by simp, by omega, by omega, ?_⟩
      rw [hx, Nat.add_sub_cancel_left]
      exact hi'
    · rw [List.getElem?_append_right (by omega)] at hi'
      obtain ⟨y, hy, h1, h2, h3⟩ := ih hxs (fun z hz => hlen z (by simp [hz])) hi'
      have hplace : hi x + (i - (f x).length) = a + i := by omega
      rw [hplace] at h1 h2 h3
      exact ⟨y, by simp [hy], h1, h2, h3⟩

/-- No span ends behind the items. -/
theorem Chained.hi_le_length {f : α → List β} (h : Chained lo hi a xs)
    (hlen : ∀ z ∈ xs, hi z = lo z + (f z).length) (hx : x ∈ xs) :
    hi x ≤ a + (xs.flatMap f).length := by
  induction xs generalizing a with
  | nil => cases hx
  | cons y ys ih =>
    have hy := hlen y List.mem_cons_self
    have ha := h.1
    rw [List.flatMap_cons, List.length_append]
    rcases List.mem_cons.mp hx with rfl | hx
    · omega
    · have := ih h.2 (fun z hz => hlen z (List.mem_cons_of_mem _ hz)) hx
      omega

/-- The last span ends with the items. -/
theorem Chained.hi_getLast {f : α → List β} (h : Chained lo hi a xs)
    (hlen : ∀ z ∈ xs, hi z = lo z + (f z).length) (hx : x ∈ xs.getLast?) :
    hi x = a + (xs.flatMap f).length := by
  induction xs generalizing a with
  | nil => cases hx
  | cons y ys ih =>
    have hy := hlen y List.mem_cons_self
    have ha := h.1
    rw [List.flatMap_cons, List.length_append]
    cases ys with
    | nil =>
      obtain rfl : y = x := by simpa using hx
      simp only [List.flatMap_nil, List.length_nil]
      omega
    | cons z zs =>
      rw [List.getLast?_cons_cons] at hx
      have := ih h.2 (fun w hw => hlen w (List.mem_cons_of_mem _ hw)) hx
      omega

/-- Spans in order, all of them in a list in order, are a part of it. -/
theorem sublist_of_ordered (hx : xs.Pairwise (Before lo hi)) (hy : ys.Pairwise (Before lo hi))
    (hsub : xs ⊆ ys) : xs.Sublist ys := by
  induction ys generalizing xs with
  | nil => rw [List.subset_nil.mp hsub]
  | cons y ys ih =>
    cases xs with
    | nil => exact List.nil_sublist _
    | cons x xs =>
      obtain ⟨hxlt, hxs⟩ := List.pairwise_cons.mp hx
      obtain ⟨hylt, hys⟩ := List.pairwise_cons.mp hy
      rcases List.mem_cons.mp (hsub List.mem_cons_self) with rfl | hmem
      · refine List.cons_sublist_cons.mpr (ih hxs hys fun z hz => ?_)
        rcases List.mem_cons.mp (hsub (List.mem_cons_of_mem _ hz)) with rfl | hz'
        · exact absurd (hxlt z hz).1 (Nat.lt_irrefl _)
        · exact hz'
      · -- every span begins behind `y`
        refine List.Sublist.cons y (ih hx hys fun z hz => ?_)
        rcases List.mem_cons.mp (hsub hz) with rfl | hz'
        · rcases List.mem_cons.mp hz with rfl | hz
          · exact hmem
          · exact absurd ((hylt x hmem).1.trans (hxlt z hz).1) (Nat.lt_irrefl _)
        · exact hz'

end Stm32F407.Lib
