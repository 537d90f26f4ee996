import Mathlib.Order.Bounds.Basic
import Stm32F407.Malloc.Invariant

/-!
# Where `my_mem_malloc` places a block

`searchLoop_some` says that what the search returns is free. Here the search is exact: it walks down
the table once with a counter that is compared for equality, and still finds the highest run of the
requested length whenever there is one, however fragmented the table is.

* `Scanned`: the loop invariant. The counter is the length of the maximal free run that begins at
  the cursor, and no run of the requested length begins there or above.
* `searchLoop_spec`: the search returns the greatest start of a free run, or there is none.
* `myMemMalloc_placement`: the return value and the table after a call, for every table and size.
-/

namespace Stm32F407.Malloc

open Stm32F407.Lib

/-- The `n` entries from `s` on lie in a table of `N` entries and are all `0`. -/
def FreeRun (map : Nat → Nat) (N n s : Nat) : Prop :=
  s + n ≤ N ∧ ∀ i, s ≤ i → i < s + n → map i = 0

/-- What the search knows when the `k` lowest entries are still to be visited. -/
structure Scanned (map : Nat → Nat) (N nmemb k cmemb : Nat) : Prop where
  inside : k + cmemb ≤ N
  free : ∀ i, k ≤ i → i < k + cmemb → map i = 0
  maximal : k + cmemb < N → map (k + cmemb) ≠ 0
  short : cmemb < nmemb
  none : ∀ s, k ≤ s → ¬ FreeRun map N nmemb s

variable {map : Nat → Nat} {N nmemb k cmemb : Nat}

/-- Before the first entry is visited. -/
theorem scanned_init (map : Nat → Nat) (N : Nat) (h : 0 < nmemb) : Scanned map N nmemb N 0 where
  inside := Nat.le_refl N
  free i hk hi := by omega
  maximal hlt := by omega
  short := h
  none s hs hrun := by
    have := hrun.1
    omega

/-- An entry in use ends the run. -/
theorem Scanned.used (h : Scanned map N nmemb (k + 1) cmemb) (hk : map k ≠ 0) :
    Scanned map N nmemb k 0 where
  inside := by
    have := h.inside
    omega
  free i hi hlt := by omega
  maximal _ := hk
  short := by
    have := h.short
    omega
  none s hs hrun := by
    rcases Nat.eq_or_lt_of_le hs with rfl | hlt
    · have := h.short
      exact hk (hrun.2 k (Nat.le_refl k) (by omega))
    · exact h.none s hlt hrun

/-- A free entry prolongs the run; as long as the run is too short, none begins at it. -/
theorem Scanned.more (h : Scanned map N nmemb (k + 1) cmemb) (hk : map k = 0)
    (hne : cmemb + 1 ≠ nmemb) : Scanned map N nmemb k (cmemb + 1) where
  inside := by
    have := h.inside
    omega
  free i hi hlt := by
    rcases Nat.eq_or_lt_of_le hi with rfl | hlt'
    · exact hk
    · exact h.free i hlt' (by omega)
  maximal hlt := by
    rw [show k + (cmemb + 1) = k + 1 + cmemb by omega] at hlt ⊢
    exact h.maximal hlt
  short := by
    have := h.short
    omega
  none s hs hrun := by
    have hshort := h.short
    rcases Nat.eq_or_lt_of_le hs with rfl | hlt
    · -- the run would reach past the maximal one
      have hin := hrun.1
      have hend := hrun.2 (k + 1 + cmemb) (by omega) (by omega)
      exact h.maximal (by omega) hend
    · exact h.none s hlt hrun

/-- When the counter reaches the length, the cursor is the greatest start. -/
theorem Scanned.found (h : Scanned map N nmemb (k + 1) cmemb) (hk : map k = 0)
    (heq : cmemb + 1 = nmemb) : IsGreatest {s | FreeRun map N nmemb s} k := by
  have hin := h.inside
  refine ⟨⟨by omega, fun i hi hlt => ?_⟩, fun s hs => ?_⟩
  · rcases Nat.eq_or_lt_of_le hi with rfl | hlt'
    · exact hk
    · exact h.free i hlt' (by omega)
  · by_contra hgt
    exact h.none s (by omega) hs

/-- **The search is exact.** -/
theorem searchLoop_spec (h : Scanned map N nmemb k cmemb) :
    match searchLoop map nmemb k cmemb with
    | some s => IsGreatest {s | FreeRun map N nmemb s} s
    | none => ∀ s, ¬ FreeRun map N nmemb s := by
  induction k generalizing cmemb with
  | zero => exact fun s => h.none s (Nat.zero_le s)
  | succ k ih =>
    have hshort := h.short
    simp only [searchLoop]
    by_cases hk : map k = 0
    · rw [if_pos hk]
      by_cases hc : cmemb + 1 = nmemb
      · rw [if_pos hc]
        exact h.found hk hc
      · rw [if_neg hc]
        exact ih (h.more hk hc)
    · rw [if_neg hk, if_neg (by omega)]
      exact ih (h.used hk)

/-- What `my_mem_malloc(memx, size)` does to a device `s`, with `n` the number of blocks of the
request: `n` is the size in blocks, rounded up, and fits its `uint32_t`; the call fails iff nothing
was asked for or no `n` entries in a row are free, and then nothing has changed; otherwise it
returns the offset of the highest such run, whose entries become `n`, and nothing else changes. -/
structure PlacementLaw (L : Layout) (memx : Bank) (size : UInt32) (s : MallcoDev) : Prop where
  count : nmembOf memx size = (size.toNat + 31) / 32 ∧ nmembOf memx size < 2 ^ 32
  fails_iff : (myMemMalloc L memx size s).1 = 0xFFFFFFFF ↔
    size = 0 ∨ ∀ o, ¬ FreeRun (s.memmap memx) (memtblsize memx) (nmembOf memx size) o
  failed : (myMemMalloc L memx size s).1 = 0xFFFFFFFF → (myMemMalloc L memx size s).2 = s
  placed : (myMemMalloc L memx size s).1 ≠ 0xFFFFFFFF →
    ∃ o, IsGreatest {o | FreeRun (s.memmap memx) (memtblsize memx) (nmembOf memx size) o} o ∧
      myMemMalloc L memx size s = (32 * o, { s with
        memmap := Function.update s.memmap memx
          (paint (s.memmap memx) ⟨o, nmembOf memx size⟩ (nmembOf memx size)) })

/-- **Completeness and placement** of `my_mem_malloc` on a ready bank, for every table. -/
theorem myMemMalloc_placement (L : Layout) (memx : Bank) (size : UInt32) (s : MallcoDev)
    (hr : s.memrdy memx = true) : PlacementLaw L memx size s := by
  have hcount : nmembOf memx size = (size.toNat + 31) / 32 ∧ nmembOf memx size < 2 ^ 32 := by
    have := size.toNat_lt
    rw [nmembOf_eq]
    exact ⟨rfl, by omega⟩
  by_cases h0 : size = 0
  · have hm : myMemMalloc L memx size s = (0xFFFFFFFF, s) := by
      simp only [myMemMalloc, hr, if_true, if_pos h0]
    exact ⟨hcount, iff_of_true (by rw [hm]) (Or.inl h0), fun _ => by rw [hm],
      fun hne => absurd (by rw [hm]) hne⟩
  · have hspec := searchLoop_spec (scanned_init (s.memmap memx) (memtblsize memx)
      (nmembOf_pos memx h0))
    cases hf : searchLoop (s.memmap memx) (nmembOf memx size) (memtblsize memx) 0 with
    | none =>
      rw [hf] at hspec
      have hm : myMemMalloc L memx size s = (0xFFFFFFFF, s) := by
        simp only [myMemMalloc, hr, if_true, if_neg h0, hf]
      exact ⟨hcount, iff_of_true (by rw [hm]) (Or.inr hspec), fun _ => by rw [hm],
        fun hne => absurd (by rw [hm]) hne⟩
    | some o =>
      rw [hf] at hspec
      have hin := hspec.1.1
      have htbl := memtblsize_lt memx
      have hm : myMemMalloc L memx size s = (32 * o, { s with
          memmap := Function.update s.memmap memx
            (paint (s.memmap memx) ⟨o, nmembOf memx size⟩ (nmembOf memx size)) }) := by
        simp only [myMemMalloc, hr, if_true, if_neg h0, hf]
        rw [fill_eq_paint, Nat.mod_eq_of_lt (by omega), memblksize_eq, Nat.mul_comm]
      have hne : (myMemMalloc L memx size s).1 ≠ 0xFFFFFFFF := by
        rw [hm]
        simp only
        omega
      refine ⟨hcount, iff_of_false hne ?_, fun h => absurd h hne, fun _ => ⟨o, hspec, hm⟩⟩
      rintro (h | h)
      · exact h0 h
      · exact h o hspec.1

/-- A ready device whose internal table is free but for entry 957: a request of four blocks passes
over the two entries above it. -/
def gapDev : MallcoDev where
  memmap _ i := if i = 957 then 1 else 0
  memrdy _ := true
  mem _ := 0

theorem myMemMalloc_placement_gap :
    (myMemMalloc iramLayout .sramin 100 gapDev).1 = 32 * 953 ∧
      PlacementLaw iramLayout .sramin 100 gapDev :=
  ⟨by decide +kernel, myMemMalloc_placement iramLayout .sramin 100 gapDev rfl⟩

end Stm32F407.Malloc
