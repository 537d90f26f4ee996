import Mathlib.Algebra.Order.Ring.Nat
import Mathlib.Data.List.Sort

/-!
# Queues of deadlines over a clock that wraps

A clock of `w` bits shows `t mod 2^w` for the time `t`, and a deadline is stored as the clock will
show it. Two stored times are compared by their difference: `t` comes before `c` when `t - c`, taken
as a `w`-bit number, is in the upper half (`wrapLt`).

* `wrapLt_ofNat`: that is the order of the times themselves, as long as they are less than half a
  turn apart.
* `pairwise_insert`: the insertion before the first later element keeps a queue in order, whatever
  the order is, and so keeps the arrival order of equal deadlines when the order refines it.
-/

namespace Stm32F407.Lib

variable {w : Nat}

/-- `t` is before `c` on the dial. -/
def wrapLt (t c : BitVec w) : Prop := 2 ^ (w - 1) - 1 < (t - c).toNat

instance wrapLt.instDecidableRel : DecidableRel (@wrapLt w) :=
  fun t c => inferInstanceAs (Decidable (2 ^ (w - 1) - 1 < (t - c).toNat))

/-- A difference on the dial is the difference of the times. -/
theorem ofNat_sub_of_le {a b : Nat} (h : b ≤ a) :
    BitVec.ofNat w a - BitVec.ofNat w b = BitVec.ofNat w (a - b) := by
  have ha : BitVec.ofNat w a = BitVec.ofNat w (a - b) + BitVec.ofNat w b := by
    rw [← BitVec.ofNat_add, Nat.sub_add_cancel h]
  rw [ha, BitVec.add_sub_cancel]

/-- **The comparison of stored times is the order of the times**, up to half a turn apart. -/
theorem wrapLt_ofNat (hw : 0 < w) {a b : Nat} (hab : a < b + 2 ^ (w - 1))
    (hba : b ≤ a + 2 ^ (w - 1)) : wrapLt (BitVec.ofNat w a) (BitVec.ofNat w b) ↔ a < b := by
  have hpow : 2 ^ w = 2 ^ (w - 1) + 2 ^ (w - 1) := by
    rw [← Nat.two_mul, ← Nat.pow_succ', Nat.succ_eq_add_one, Nat.sub_add_cancel hw]
  have hpos : 0 < 2 ^ (w - 1) := Nat.two_pow_pos _
  unfold wrapLt
  rcases Nat.lt_or_ge a b with hlt | hge
  · -- the difference is less than nothing: it goes round
    have hneg : BitVec.ofNat w a - BitVec.ofNat w b = -BitVec.ofNat w (b - a) := by
      rw [← ofNat_sub_of_le hlt.le, BitVec.neg_sub, BitVec.add_comm, BitVec.sub_eq_add_neg]
    rw [hneg, BitVec.toNat_neg, BitVec.toNat_ofNat, Nat.mod_eq_of_lt (by omega : b - a < 2 ^ w),
      Nat.mod_eq_of_lt (by omega)]
    exact iff_of_true (by omega) hlt
  · rw [ofNat_sub_of_le hge, BitVec.toNat_ofNat, Nat.mod_eq_of_lt (by omega)]
    exact iff_of_false (by omega) (by omega)

variable {α : Type*} {r R : α → α → Prop} [DecidableRel r]

/-- **Insertion keeps order**: when the new element is `R`-before the elements it is put in front of
and `R`-after those it is not, a queue in `R`-order stays so. -/
theorem pairwise_insert (htrans : ∀ a b c, R a b → R b c → R a c) {a : α} {l : List α}
    (hl : l.Pairwise R) (hlt : ∀ b ∈ l, r a b → R a b) (hge : ∀ b ∈ l, ¬ r a b → R b a) :
    (l.orderedInsert r a).Pairwise R := by
  induction l with
  | nil => exact List.pairwise_singleton R a
  | cons b l ih =>
    obtain ⟨hb, hl⟩ := List.pairwise_cons.mp hl
    rw [List.orderedInsert_cons]
    split_ifs with hab
    · have hRab : R a b := hlt b List.mem_cons_self hab
      refine List.pairwise_cons.mpr ⟨fun c hc => ?_, List.pairwise_cons.mpr ⟨hb, hl⟩⟩
      rcases List.mem_cons.mp hc with rfl | hc
      · exact hRab
      · exact htrans a b c hRab (hb c hc)
    · refine List.pairwise_cons.mpr ⟨fun c hc => ?_, ih hl
        (fun c hc => hlt c (List.mem_cons_of_mem b hc))
        (fun c hc => hge c (List.mem_cons_of_mem b hc))⟩
      rcases (List.mem_orderedInsert r).mp hc with rfl | hc
      · exact hge b List.mem_cons_self hab
      · exact hb c hc

end Stm32F407.Lib
