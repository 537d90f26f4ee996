import Stm32F407.Lcd.Event
import Stm32F407.Lib.Runs

/-!
# Registration of events

Registration treats the two queues alike: it sees the slots, and of each object the `EventNumber`
and the `EventStatus` (`QueueView`). The search for a slot wants one that is empty or whose object
is logged out, but it compares `EventNumber`, not `EventStatus`, with `EVENT_STATE_LOGOUT`. As the
object in a slot has the number of that slot, the second slot is the one that always passes.

* `getEQNumber_spec`: the search gives the last empty slot after the second, and the second slot
  when there is none; so registration never fails and never uses the first slot.
* `registerLaw_iff`: a registration is as it should be iff there was such an empty slot, or the
  second slot could be used.
* `register_run_iff`: the same over every run of registrations in both queues and status writes.
-/

namespace Stm32F407.Lcd

open Stm32F407.Lib

/-! ## One queue -/

/-- What registration sees of a queue. -/
structure QueueView where
  slot : Nat → Option Nat
  number : Nat → Nat
  status : Nat → EventState

/-- The cycle queue. -/
def cycleView (s : TftLcd) : QueueView where
  slot := s.cycleEventQueue
  number o := (s.cycle o).eventNumber
  status o := (s.cycle o).eventStatus

/-- The once queue. -/
def onceView (s : TftLcd) : QueueView where
  slot := s.onceEventQueue
  number o := (s.once o).eventNumber
  status o := (s.once o).eventStatus

namespace QueueView

/-- A slot that may be given away: empty, or its object is logged out. -/
def Free (v : QueueView) (i : Nat) : Prop := ∀ o, v.slot i = some o → v.status o = .logout

/-- The queue with the object `o` registered under the number `k`. -/
def put (v : QueueView) (k o : Nat) : QueueView where
  slot := Function.update v.slot (k - 1) (some o)
  number := Function.update v.number o k
  status := Function.update v.status o .inactive

end QueueView

/-- The objects registered once `o` has gone to slot `i`: a logged-out object it replaces is no
longer one of them. -/
def registered (v : QueueView) (i o : Nat) (objs : List Nat) : List Nat :=
  o :: objs.filter fun p => !decide (v.slot i = some p ∧ v.status p = .logout)

/-- Every registered object that is not logged out is in the queue, at the slot of its number. -/
def Kept (n : Nat) (v : QueueView) (objs : List Nat) : Prop :=
  ∀ o ∈ objs, v.status o ≠ .logout →
    1 ≤ v.number o ∧ v.number o ≤ n ∧ v.slot (v.number o - 1) = some o

/-- What a registration of `o` should do: succeed iff some slot is free, then change only such a
slot; and leave the queue alone when it fails. -/
structure RegisterLaw (n : Nat) (v : QueueView) (o : Nat) (ret : Bool) (v' : QueueView) : Prop where
  ret_iff : ret = true ↔ ∃ i, i < n ∧ v.Free i
  changes : ret = true → ∃ i, i < n ∧ v.Free i ∧ v'.slot = Function.update v.slot i (some o)
  refused : ret = false → v' = v

/-- There is an empty slot after the second, or the second one is free. -/
def RegisterOk (n : Nat) (v : QueueView) : Prop :=
  v.Free 1 ∨ ∃ i, 2 ≤ i ∧ i < n ∧ v.slot i = none

/-- The invariant of a queue: its objects are the registered ones, each numbered by its slot, and
the first slot has never been used. -/
structure QueueInv (n : Nat) (v : QueueView) (objs : List Nat) : Prop where
  slot_obj : ∀ i o, i < n → v.slot i = some o → o ∈ objs ∧ v.number o = i + 1
  obj_slot : ∀ o ∈ objs, ∃ i, i < n ∧ v.slot i = some o
  first : v.slot 0 = none

variable {n o : Nat} {v : QueueView} {objs : List Nat}

theorem QueueInv.kept (h : QueueInv n v objs) : Kept n v objs := by
  intro o ho _
  obtain ⟨i, hi, hs⟩ := h.obj_slot o ho
  obtain ⟨-, hnum⟩ := h.slot_obj i o hi hs
  rw [hnum]
  exact ⟨Nat.le_add_left 1 i, hi, hs⟩

/-- The invariant reads the slots and the numbers only. -/
theorem QueueInv.congr {v' : QueueView} (h : QueueInv n v objs) (hslot : v'.slot = v.slot)
    (hnum : v'.number = v.number) : QueueInv n v' objs where
  slot_obj := by rw [hslot, hnum]; exact h.slot_obj
  obj_slot := by rw [hslot]; exact h.obj_slot
  first := by rw [hslot]; exact h.first

/-- An empty queue. -/
theorem queueInv_empty (n : Nat) (hv : ∀ i, v.slot i = none) : QueueInv n v [] where
  slot_obj i o _ hs := by rw [hv] at hs; exact absurd hs (by simp)
  obj_slot o ho := absurd ho List.not_mem_nil
  first := hv 0

/-- **The search.** Down from any slot after the second it stops at the second slot or at an empty
one, and every slot it has passed holds an object. -/
theorem getEQNumber_spec (h : QueueInv n v objs) {m : Nat} (hm : 2 ≤ m) (hmn : m ≤ n) :
    2 ≤ getEQNumber v.slot v.number m ∧ getEQNumber v.slot v.number m ≤ m ∧
      (getEQNumber v.slot v.number m = 2 ∨ v.slot (getEQNumber v.slot v.number m - 1) = none) ∧
      ∀ i, getEQNumber v.slot v.number m ≤ i → i < m → v.slot i ≠ none := by
  induction m with
  | zero => omega
  | succ m ih =>
    cases hs : v.slot m with
    | none =>
      have heq : getEQNumber v.slot v.number (m + 1) = m + 1 := by simp [getEQNumber, hs]
      rw [heq]
      exact ⟨hm, Nat.le_refl _, Or.inr (by simpa using hs), fun i h1 h2 => absurd h1 (by omega)⟩
    | some p =>
      have hnum : v.number p = m + 1 := (h.slot_obj m p hmn hs).2
      by_cases h2 : m + 1 = 2
      · -- the second slot's object has the number 2, which is `EVENT_STATE_LOGOUT`
        have heq : getEQNumber v.slot v.number (m + 1) = m + 1 := by
          simp [getEQNumber, hs, hnum, h2, EventState.toNat]
        rw [heq]
        exact ⟨hm, Nat.le_refl _, Or.inl h2, fun i h1 h2 => absurd h1 (by omega)⟩
      · have heq : getEQNumber v.slot v.number (m + 1) = getEQNumber v.slot v.number m := by
          simp [getEQNumber, hs, hnum, EventState.toNat, h2]
        obtain ⟨hge, hle, hcase, hpassed⟩ := ih (by omega) (by omega)
        rw [heq]
        refine ⟨hge, by omega, hcase, fun i h1 h2 => ?_⟩
        rcases Nat.lt_succ_iff_lt_or_eq.mp h2 with hlt | rfl
        · exact hpassed i h1 hlt
        · rw [hs]
          simp

/-- The slot the search gives is free iff `RegisterOk`. -/
theorem free_getEQNumber_iff (h : QueueInv n v objs) (hn : 2 ≤ n) :
    v.Free (getEQNumber v.slot v.number n - 1) ↔ RegisterOk n v := by
  obtain ⟨hge, hle, hcase, hpassed⟩ := getEQNumber_spec h hn (Nat.le_refl n)
  constructor
  · intro hfree
    rcases hcase with h2 | hnone
    · rw [h2] at hfree
      exact Or.inl hfree
    · by_cases h2 : getEQNumber v.slot v.number n = 2
      · rw [h2] at hfree
        exact Or.inl hfree
      · exact Or.inr ⟨_, by omega, by omega, hnone⟩
  · intro hok p hp
    rcases hcase with h2 | hnone
    · rw [h2] at hp hpassed
      rcases hok with hfree | ⟨i, hi2, hin, hnone⟩
      · exact hfree p hp
      · exact absurd hnone (hpassed i hi2 hin)
    · rw [hnone] at hp
      exact absurd hp (by simp)

/-- A registration into a free slot keeps the invariant. -/
theorem queueInv_put (h : QueueInv n v objs) (hfresh : o ∉ objs) {k : Nat} (hk : 2 ≤ k)
    (hkn : k ≤ n) (hfree : v.Free (k - 1)) :
    QueueInv n (v.put k o) (registered v (k - 1) o objs) where
  slot_obj i p hi hs := by
    by_cases hik : i = k - 1
    · obtain rfl : o = p := by simpa [QueueView.put, hik] using hs
      refine ⟨List.mem_cons_self, ?_⟩
      simp only [QueueView.put, Function.update_self]
      omega
    · have hold : v.slot i = some p := by simpa [QueueView.put, hik] using hs
      obtain ⟨hmem, hnum⟩ := h.slot_obj i p hi hold
      have hne : p ≠ o := fun he => hfresh (he ▸ hmem)
      refine ⟨List.mem_cons_of_mem _ (List.mem_filter.mpr ⟨hmem, ?_⟩), ?_⟩
      · -- an object in the slot given away would have that slot's number
        have hother : v.slot (k - 1) ≠ some p := fun hsame => by
          have := (h.slot_obj (k - 1) p (by omega) hsame).2
          omega
        simp [hother]
      · simpa [QueueView.put, hne] using hnum
  obj_slot p hp := by
    rcases List.mem_cons.mp hp with rfl | hp
    · exact ⟨k - 1, by omega, by simp [QueueView.put]⟩
    · obtain ⟨hmem, hkeep⟩ := List.mem_filter.mp hp
      obtain ⟨i, hi, hs⟩ := h.obj_slot p hmem
      refine ⟨i, hi, ?_⟩
      by_cases hik : i = k - 1
      · rw [hik] at hs
        simp [hs, hfree p hs] at hkeep
      · simpa [QueueView.put, hik] using hs
  first := by
    have h0 : (0 : Nat) ≠ k - 1 := by omega
    simpa [QueueView.put, h0] using h.first

/-- **One registration** is as it should be iff `RegisterOk`. -/
theorem registerLaw_iff (h : QueueInv n v objs) (hn : 2 ≤ n) (hfresh : o ∉ objs) :
    RegisterLaw n v o true (v.put (getEQNumber v.slot v.number n) o) ↔ RegisterOk n v := by
  obtain ⟨hge, hle, -, -⟩ := getEQNumber_spec h hn (Nat.le_refl n)
  rw [← free_getEQNumber_iff h hn]
  generalize getEQNumber v.slot v.number n = k at hge hle
  constructor
  · intro hlaw
    obtain ⟨i, hi, hfree, hslot⟩ := hlaw.changes rfl
    -- `o` was in no slot before, so the slot that holds it now is the one that was changed
    have hki : k - 1 = i := by
      by_contra hne
      have hk := congrFun hslot (k - 1)
      rw [Function.update_of_ne hne] at hk
      simp only [QueueView.put, Function.update_self] at hk
      exact hfresh (h.slot_obj (k - 1) o (by omega) hk.symm).1
    rw [hki]
    exact hfree
  · intro hfree
    have hfirst : v.Free 0 := fun p hp => by
      rw [h.first] at hp
      exact absurd hp (by simp)
    exact ⟨iff_of_true rfl ⟨0, by omega, hfirst⟩, fun _ => ⟨k - 1, by omega, hfree, rfl⟩,
      fun hf => absurd hf (by simp)⟩

/-- One registration under the invariant: with `RegisterOk` the queue keeps it. -/
theorem queueInv_register (h : QueueInv n v objs) (hn : 2 ≤ n) (hfresh : o ∉ objs)
    (hok : RegisterOk n v) :
    QueueInv n (v.put (getEQNumber v.slot v.number n) o)
      (registered v (getEQNumber v.slot v.number n - 1) o objs) := by
  obtain ⟨hge, hle, -, -⟩ := getEQNumber_spec h hn (Nat.le_refl n)
  exact queueInv_put h hfresh hge hle ((free_getEQNumber_iff h hn).mpr hok)

/-! ## Both queues -/

/-- The queues, with the objects registered in each. -/
structure Registry where
  lcd : TftLcd
  cycleObjs : List Nat
  onceObjs : List Nat

/-- A registration in one of the queues, or a user who sets the status of an event. -/
inductive RegisterEvent where
  | cycle (onFunc periodCnt o : Nat)
  | once (onFunc onCbFunc o : Nat)
  | write (w : StatusWrite)

/-- One event. -/
def registerStep (t : Registry) : RegisterEvent → Registry
  | .cycle onFunc periodCnt o =>
    let r := tftlcdCycleEventRegister onFunc periodCnt o t.lcd
    { t with
      lcd := r.2
      cycleObjs := if r.1 then
          registered (cycleView t.lcd) ((cycleView r.2).number o - 1) o t.cycleObjs
        else t.cycleObjs }
  | .once onFunc onCbFunc o =>
    let r := tftlcdOnceEventRegister onFunc onCbFunc o t.lcd
    { t with
      lcd := r.2
      onceObjs := if r.1 then
          registered (onceView t.lcd) ((onceView r.2).number o - 1) o t.onceObjs
        else t.onceObjs }
  | .write w => { t with lcd := t.lcd.write w }

/-- The queues as they are at reset, both empty. -/
def registryStart (s₀ : TftLcd) : Registry where
  lcd := { s₀ with cycleEventQueue := fun _ => none, onceEventQueue := fun _ => none }
  cycleObjs := []
  onceObjs := []

/-- A registration is of an object that is not registered already. -/
def Fresh (t : Registry) : RegisterEvent → Prop
  | .cycle _ _ o => o ∉ t.cycleObjs
  | .once _ _ o => o ∉ t.onceObjs
  | .write _ => True

instance (t : Registry) : ∀ e, Decidable (Fresh t e)
  | .cycle _ _ o => inferInstanceAs (Decidable (o ∉ t.cycleObjs))
  | .once _ _ o => inferInstanceAs (Decidable (o ∉ t.onceObjs))
  | .write _ => isTrue trivial

/-- Both queues keep their registered objects, and a registration does what it should; one that
fails changes neither queue nor object. -/
def RegistryLaw (t : Registry) (e : RegisterEvent) : Prop :=
  Kept cycleEventQueueNum (cycleView (registerStep t e).lcd) (registerStep t e).cycleObjs ∧
  Kept onceEventQueueNum (onceView (registerStep t e).lcd) (registerStep t e).onceObjs ∧
  match e with
  | .cycle onFunc periodCnt o =>
    let r := tftlcdCycleEventRegister onFunc periodCnt o t.lcd
    RegisterLaw cycleEventQueueNum (cycleView t.lcd) o r.1 (cycleView r.2) ∧
      (r.1 = false → r.2 = t.lcd)
  | .once onFunc onCbFunc o =>
    let r := tftlcdOnceEventRegister onFunc onCbFunc o t.lcd
    RegisterLaw onceEventQueueNum (onceView t.lcd) o r.1 (onceView r.2) ∧
      (r.1 = false → r.2 = t.lcd)
  | .write _ => True

/-- A registration finds an empty slot after the second, or may use the second. -/
def RegistryOk (t : Registry) : RegisterEvent → Prop
  | .cycle _ _ _ => RegisterOk cycleEventQueueNum (cycleView t.lcd)
  | .once _ _ _ => RegisterOk onceEventQueueNum (onceView t.lcd)
  | .write _ => True

/-- Both queues' invariants. -/
structure RegistryInv (t : Registry) : Prop where
  cycle : QueueInv cycleEventQueueNum (cycleView t.lcd) t.cycleObjs
  once : QueueInv onceEventQueueNum (onceView t.lcd) t.onceObjs

variable {t : Registry}

theorem registryInv_start (s₀ : TftLcd) : RegistryInv (registryStart s₀) where
  cycle := queueInv_empty _ fun _ => rfl
  once := queueInv_empty _ fun _ => rfl

/-- `TFTLCD_CycleEventRegister` succeeds, and acts on the cycle queue alone. -/
theorem cycleRegister_spec {s : TftLcd} {objs : List Nat}
    (h : QueueInv cycleEventQueueNum (cycleView s) objs) (onFunc periodCnt o : Nat) :
    (tftlcdCycleEventRegister onFunc periodCnt o s).1 = true ∧
      cycleView (tftlcdCycleEventRegister onFunc periodCnt o s).2 =
        (cycleView s).put (tftlcdGetCycleEQNumber s) o ∧
      onceView (tftlcdCycleEventRegister onFunc periodCnt o s).2 = onceView s := by
  have hge : 2 ≤ tftlcdGetCycleEQNumber s :=
    (getEQNumber_spec h (by decide) (Nat.le_refl _)).1
  unfold tftlcdCycleEventRegister
  rw [if_neg (by omega)]
  refine ⟨rfl, ?_, rfl⟩
  simp only [cycleView, QueueView.put, QueueView.mk.injEq, true_and]
  constructor <;> funext p <;> by_cases hp : p = o <;> simp [hp]

/-- `TFTLCD_OnceEventRegister` succeeds, and acts on the once queue alone. -/
theorem onceRegister_spec {s : TftLcd} {objs : List Nat}
    (h : QueueInv onceEventQueueNum (onceView s) objs) (onFunc onCbFunc o : Nat) :
    (tftlcdOnceEventRegister onFunc onCbFunc o s).1 = true ∧
      onceView (tftlcdOnceEventRegister onFunc onCbFunc o s).2 =
        (onceView s).put (tftlcdGetOnceEQNumber s) o ∧
      cycleView (tftlcdOnceEventRegister onFunc onCbFunc o s).2 = cycleView s := by
  have hge : 2 ≤ tftlcdGetOnceEQNumber s :=
    (getEQNumber_spec h (by decide) (Nat.le_refl _)).1
  unfold tftlcdOnceEventRegister
  rw [if_neg (by omega)]
  refine ⟨rfl, ?_, rfl⟩
  simp only [onceView, QueueView.put, QueueView.mk.injEq, true_and]
  constructor <;> funext p <;> by_cases hp : p = o <;> simp [hp]

/-- A status write leaves the slots and the numbers alone. -/
theorem write_frame (s : TftLcd) (w : StatusWrite) :
    (cycleView (s.write w)).slot = (cycleView s).slot ∧
      (cycleView (s.write w)).number = (cycleView s).number ∧
      (onceView (s.write w)).slot = (onceView s).slot ∧
      (onceView (s.write w)).number = (onceView s).number := by
  cases w with
  | cycle q st =>
    refine ⟨rfl, ?_, rfl, rfl⟩
    funext p
    by_cases hp : p = q <;> simp [cycleView, TftLcd.write, hp]
  | once q st =>
    refine ⟨rfl, rfl, rfl, ?_⟩
    funext p
    by_cases hp : p = q <;>
      simp [onceView, TftLcd.write, TftLcd.setOnceStatus, TftLcd.log, hp]

/-- One event keeps the invariant, if it meets `RegistryOk`. -/
theorem registryInv_step (e : RegisterEvent) (h : RegistryInv t) (hfresh : Fresh t e)
    (hok : RegistryOk t e) : RegistryInv (registerStep t e) := by
  cases e with
  | cycle onFunc periodCnt o =>
    obtain ⟨hret, hview, hother⟩ := cycleRegister_spec h.cycle onFunc periodCnt o
    constructor
    · simp only [registerStep, hret, hview, if_true, QueueView.put, Function.update_self]
      exact queueInv_register h.cycle (by decide) hfresh hok
    · simp only [registerStep, hother]
      exact h.once
  | once onFunc onCbFunc o =>
    obtain ⟨hret, hview, hother⟩ := onceRegister_spec h.once onFunc onCbFunc o
    constructor
    · simp only [registerStep, hother]
      exact h.cycle
    · simp only [registerStep, hret, hview, if_true, QueueView.put, Function.update_self]
      exact queueInv_register h.once (by decide) hfresh hok
  | write w =>
    obtain ⟨hcs, hcn, hos, hon⟩ := write_frame t.lcd w
    exact ⟨h.cycle.congr hcs hcn, h.once.congr hos hon⟩

/-- One event obeys the law iff it meets `RegistryOk`. -/
theorem registryLaw_iff (e : RegisterEvent) (h : RegistryInv t) (hfresh : Fresh t e) :
    RegistryLaw t e ↔ RegistryOk t e := by
  constructor
  · rintro ⟨-, -, hlaw⟩
    cases e with
    | cycle onFunc periodCnt o =>
      obtain ⟨hret, hview, -⟩ := cycleRegister_spec h.cycle onFunc periodCnt o
      have hreg := hlaw.1
      rw [hret, hview] at hreg
      exact (registerLaw_iff h.cycle (by decide) hfresh).mp hreg
    | once onFunc onCbFunc o =>
      obtain ⟨hret, hview, -⟩ := onceRegister_spec h.once onFunc onCbFunc o
      have hreg := hlaw.1
      rw [hret, hview] at hreg
      exact (registerLaw_iff h.once (by decide) hfresh).mp hreg
    | write w => trivial
  · intro hok
    obtain ⟨hcycle, honce⟩ := registryInv_step e h hfresh hok
    refine ⟨hcycle.kept, honce.kept, ?_⟩
    cases e with
    | cycle onFunc periodCnt o =>
      obtain ⟨hret, hview, -⟩ := cycleRegister_spec h.cycle onFunc periodCnt o
      refine ⟨?_, fun hf => absurd (hret.symm.trans hf) (by simp)⟩
      rw [hret, hview]
      exact (registerLaw_iff h.cycle (by decide) hfresh).mpr hok
    | once onFunc onCbFunc o =>
      obtain ⟨hret, hview, -⟩ := onceRegister_spec h.once onFunc onCbFunc o
      refine ⟨?_, fun hf => absurd (hret.symm.trans hf) (by simp)⟩
      rw [hret, hview]
      exact (registerLaw_iff h.once (by decide) hfresh).mpr hok
    | write w => trivial

/-- **Registration.** Over every run of registrations in the two queues, each of an object that is
not registered, and of status writes by users, no live event is evicted and every registration
answers and acts as it should, throughout the run, iff every registration finds an empty slot after
the second, or finds the second slot empty or its object logged out. -/
theorem register_run_iff (s₀ : TftLcd) (es : List RegisterEvent)
    (hfresh : AllSteps registerStep Fresh (registryStart s₀) es) :
    AllSteps registerStep RegistryLaw (registryStart s₀) es ↔
      AllSteps registerStep RegistryOk (registryStart s₀) es :=
  allSteps_iff_of_assume (fun _ e h hf hok => registryInv_step e h hf hok)
    (fun _ e h hf => registryLaw_iff e h hf) (registryInv_start s₀) hfresh

/-- No event object is in use. -/
def lcdReset : TftLcd where
  cycleEventQueue _ := none
  onceEventQueue _ := none
  cycle _ := ⟨0, .inactive, 0, 0, 0⟩
  once _ := ⟨0, .inactive, 0, 0⟩
  eventCycleCnt := 1
  trace := []
  cycleCalls := []

/-- Two cycle events: each finds an empty slot after the second. -/
theorem register_run_two_cycles :
    AllSteps registerStep RegistryLaw (registryStart lcdReset) [.cycle 0 1 10, .cycle 0 1 11] := by
  refine (register_run_iff lcdReset _ (by decide)).mpr ?_
  exact ⟨Or.inr ⟨3, by decide⟩, Or.inr ⟨2, by decide⟩, trivial⟩

/-- The fourth cycle event takes the slot of the third, although the first slot is empty and the
third event is not logged out. -/
theorem register_run_evicts :
    AllSteps registerStep Fresh (registryStart lcdReset)
      [.cycle 0 1 10, .cycle 0 1 11, .cycle 0 1 12, .cycle 0 1 13] ∧
    ¬ AllSteps registerStep RegistryLaw (registryStart lcdReset)
      [.cycle 0 1 10, .cycle 0 1 11, .cycle 0 1 12, .cycle 0 1 13] := by
  refine ⟨by decide, ?_⟩
  rintro ⟨-, -, -, ⟨hkept, -, -⟩, -⟩
  have h12 := hkept 12 (by decide) (by decide)
  exact absurd h12.2.2 (by decide)

end Stm32F407.Lcd
