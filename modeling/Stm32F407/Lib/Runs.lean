import Mathlib.Data.List.Basic
import Mathlib.Order.WellFounded
import Mathlib.Tactic.TypeStar

/-!
# Runs of an event-driven machine

A machine is a step function `σ → ε → σ`; an event that is not enabled leaves the state where it
is. `run` folds the step over a list of events, and `AllSteps Ok` says that every step of the run
meets `Ok`, read on the state before the step and on the event. A property of the states a run
goes through is an `AllSteps` too, of `fun s e => P (step s e)`.

* `run_invariant`: what every step that meets `Ok` preserves holds at the end of a run whose steps
  all meet `Ok`.
* `allSteps_iff`: when, under an invariant that the good steps keep, one step obeys the law iff it
  meets `Ok`, then a whole run obeys the law iff all its steps meet `Ok`.
* `allSteps_iff_run`: a property that no step repairs holds after every step iff it holds at the
  end.
* `exists_run_of_lt`: when every step reaches the goal or comes nearer to it in a well-founded
  order, enough steps reach it.
-/

namespace Stm32F407.Lib

variable {σ ε : Type*} {step : σ → ε → σ}

/-- The state after the events `es`. -/
def run (step : σ → ε → σ) (s : σ) (es : List ε) : σ := es.foldl step s

/-- Every step of the run meets `Ok`. -/
def AllSteps (step : σ → ε → σ) (Ok : σ → ε → Prop) : σ → List ε → Prop
  | _, [] => True
  | s, e :: es => Ok s e ∧ AllSteps step Ok (step s e) es

instance AllSteps.instDecidable {Ok : σ → ε → Prop} [∀ s e, Decidable (Ok s e)] :
    ∀ s es, Decidable (AllSteps step Ok s es)
  | _, [] => isTrue trivial
  | s, e :: es => @instDecidableAnd _ _ _ (AllSteps.instDecidable (step s e) es)

@[simp] theorem run_nil (s : σ) : run step s [] = s := rfl

@[simp] theorem run_cons (s : σ) (e : ε) (es : List ε) :
    run step s (e :: es) = run step (step s e) es := rfl

theorem run_append (s : σ) (es fs : List ε) :
    run step s (es ++ fs) = run step (run step s es) fs := List.foldl_append

variable {Ok Law : σ → ε → Prop}

@[simp] theorem allSteps_nil (s : σ) : AllSteps step Ok s [] := trivial

@[simp] theorem allSteps_cons (s : σ) (e : ε) (es : List ε) :
    AllSteps step Ok s (e :: es) ↔ Ok s e ∧ AllSteps step Ok (step s e) es := Iff.rfl

theorem allSteps_append (s : σ) (es fs : List ε) :
    AllSteps step Ok s (es ++ fs) ↔
      AllSteps step Ok s es ∧ AllSteps step Ok (run step s es) fs := by
  induction es generalizing s with
  | nil => simp
  | cons e es ih => rw [List.cons_append, allSteps_cons, ih, allSteps_cons, run_cons, and_assoc]

/-- A condition on the events alone. -/
theorem allSteps_event {Q : ε → Prop} {s : σ} {es : List ε} :
    AllSteps step (fun _ e => Q e) s es ↔ ∀ e ∈ es, Q e := by
  induction es generalizing s with
  | nil => exact iff_of_true trivial fun _ he => absurd he List.not_mem_nil
  | cons e es ih => rw [allSteps_cons, ih, List.forall_mem_cons]

theorem allSteps_and {s : σ} {es : List ε} :
    AllSteps step (fun s e => Ok s e ∧ Law s e) s es ↔
      AllSteps step Ok s es ∧ AllSteps step Law s es := by
  induction es generalizing s with
  | nil => exact iff_of_true trivial ⟨trivial, trivial⟩
  | cons e es ih =>
    rw [allSteps_cons, allSteps_cons, allSteps_cons, ih]
    exact and_and_and_comm

/-- **The invariant rule**: an invariant that every step meeting `Ok` keeps holds at the end of
every run whose steps all meet `Ok`. -/
theorem run_invariant {P : σ → Prop} (hstep : ∀ s e, P s → Ok s e → P (step s e)) :
    ∀ {s : σ} {es : List ε}, P s → AllSteps step Ok s es → P (run step s es)
  | _, [], hs, _ => hs
  | s, e :: _, hs, h => by
    rw [run_cons]
    exact run_invariant hstep (hstep s e hs h.1) h.2

/-- **The law rule**: under an invariant, a law that follows from `Ok` step by step holds at every
step of a run whose steps all meet `Ok`. -/
theorem allSteps_of {P : σ → Prop} (hstep : ∀ s e, P s → Ok s e → P (step s e))
    (hlaw : ∀ s e, P s → Ok s e → Law s e) :
    ∀ {s : σ} {es : List ε}, P s → AllSteps step Ok s es → AllSteps step Law s es
  | _, [], _, _ => trivial
  | s, e :: _, hs, h =>
    ⟨hlaw s e hs h.1, allSteps_of hstep hlaw (hstep s e hs h.1) h.2⟩

/-- The law rule for an invariant that every step keeps. -/
theorem allSteps_of_inv {P : σ → Prop} (hstep : ∀ s e, P s → P (step s e))
    (hlaw : ∀ s e, P s → Law s e) {s : σ} {es : List ε} (hs : P s) : AllSteps step Law s es := by
  induction es generalizing s with
  | nil => trivial
  | cons e es ih => exact ⟨hlaw s e hs, ih (hstep s e hs)⟩

/-- An invariant that every step keeps holds at the end of every run. -/
theorem run_of_inv {P : σ → Prop} (hstep : ∀ s e, P s → P (step s e)) {s : σ} {es : List ε}
    (hs : P s) : P (run step s es) := by
  induction es generalizing s with
  | nil => exact hs
  | cons e es ih => exact ih (hstep s e hs)

/-- **The exactness rule**: when the steps that meet `Ok` keep the invariant, and under it one step
obeys the law iff it meets `Ok`, a run obeys the law throughout iff all its steps meet `Ok`. -/
theorem allSteps_iff {P : σ → Prop} (hstep : ∀ s e, P s → Ok s e → P (step s e))
    (hlaw : ∀ s e, P s → (Law s e ↔ Ok s e)) {s : σ} {es : List ε} (hs : P s) :
    AllSteps step Law s es ↔ AllSteps step Ok s es :=
  ⟨fun h => allSteps_of (fun s e hP hL => hstep s e hP ((hlaw s e hP).mp hL))
    (fun s e hP hL => (hlaw s e hP).mp hL) hs h,
   fun h => allSteps_of hstep (fun s e hP hO => (hlaw s e hP).mpr hO) hs h⟩

/-- The exactness rule under an assumption `A` on the events of the run. -/
theorem allSteps_iff_of_assume {P : σ → Prop} {A : σ → ε → Prop}
    (hstep : ∀ s e, P s → A s e → Ok s e → P (step s e))
    (hlaw : ∀ s e, P s → A s e → (Law s e ↔ Ok s e)) {s : σ} {es : List ε} (hs : P s)
    (hA : AllSteps step A s es) : AllSteps step Law s es ↔ AllSteps step Ok s es := by
  induction es generalizing s with
  | nil => exact Iff.rfl
  | cons e es ih =>
    rw [allSteps_cons, allSteps_cons, hlaw s e hs hA.1]
    exact and_congr_right fun hok => ih (hstep s e hs hA.1 hok) hA.2

/-- A property that no step repairs, such as one of a growing record, holds after every step of a
run iff it holds at its end. -/
theorem allSteps_iff_run {P : σ → Prop} (hback : ∀ s e, P (step s e) → P s) {s : σ} {es : List ε}
    (hs : P s) : AllSteps step (fun s e => P (step s e)) s es ↔ P (run step s es) := by
  -- a prefix of a good run is good
  have hprefix : ∀ (fs : List ε) (t : σ), P (run step t fs) → P t := by
    intro fs
    induction fs with
    | nil => exact fun t h => h
    | cons e fs ih => exact fun t h => hback t e (ih (step t e) h)
  induction es generalizing s with
  | nil => exact iff_of_true trivial hs
  | cons e es ih =>
    rw [allSteps_cons, run_cons]
    constructor
    · rintro ⟨he, h⟩
      exact (ih he).mp h
    · intro h
      have he := hprefix es (step s e) h
      exact ⟨he, (ih he).mpr h⟩

/-- **The progress rule**: under an invariant `P`, if every event of the kind `K` reaches the goal
or keeps the invariant and makes the measure smaller, then enough events of that kind reach it. -/
theorem exists_run_of_lt {W : Type*} [LT W] [WellFoundedLT W] {μ : σ → W} {P Goal : σ → Prop}
    {K : ε → Prop}
    (hstep : ∀ s e, P s → K e → Goal (step s e) ∨ (P (step s e) ∧ μ (step s e) < μ s))
    {f : Nat → ε} (hf : ∀ k, K (f k)) {s : σ} (hs : P s) :
    ∃ n, Goal (run step s ((List.range n).map f)) := by
  generalize hw : μ s = w
  induction w using WellFoundedLT.induction generalizing s f with
  | ind w ih =>
    rcases hstep s (f 0) hs (hf 0) with hgoal | ⟨hP, hlt⟩
    · exact ⟨1, hgoal⟩
    · obtain ⟨n, hn⟩ := ih _ (hw ▸ hlt) (fun k => hf (k + 1)) hP rfl
      refine ⟨n + 1, ?_⟩
      rw [List.range_succ_eq_map, List.map_cons, List.map_map, run_cons]
      exact hn

end Stm32F407.Lib
