import Stm32F407.Lcd.Register

/-!
# The change of a priority

`TFTLCD_SetOnceEventPriority` and `TFTLCD_SetCycleEventPriority` should exchange an object with the
one in the slot of the new number. An object with `EventNumber` k is in slot k - 1, but they use the
numbers themselves as indices, and they never write the number of the object that is displaced.

`priority_iff`: for both queues, a change does what it should iff the new number is refused, or it
is the object's own number and the slot after it is still in the queue. Every real change of a
priority goes wrong.
-/

namespace Stm32F407.Lcd

/-- The two queues. -/
inductive QueueKind where
  | cycle
  | once
deriving DecidableEq, Repr

/-- The number of slots. -/
def QueueKind.num : QueueKind → Nat
  | .cycle => cycleEventQueueNum
  | .once => onceEventQueueNum

/-- The slots, numbers and statuses. -/
def QueueKind.view : QueueKind → TftLcd → QueueView
  | .cycle => cycleView
  | .once => onceView

/-- The function that changes a priority. -/
def QueueKind.setPriority : QueueKind → Nat → Nat → TftLcd → List Nat × TftLcd
  | .cycle => tftlcdSetCycleEventPriority
  | .once => tftlcdSetOnceEventPriority

/-- Each registered object sits at slot `EventNumber - 1`. -/
def Placed (n : Nat) (v : QueueView) : Prop := ∀ i o, i < n → v.slot i = some o → v.number o = i + 1

/-- **What a change of the priority of `o` to `g` should do**: put the object in the slot of its new
number, the former occupant in the object's old slot, both with the number of their slot, and leave
all other slots alone; change nothing for a number that is not one of the queue; and use no index
outside the queue. -/
structure PriorityLaw (k : QueueKind) (s : TftLcd) (o g : Nat) : Prop where
  moved : 1 ≤ g → g ≤ k.num → (k.view (k.setPriority g o s).2).slot (g - 1) = some o ∧
    (k.view (k.setPriority g o s).2).number o = g
  displaced : 1 ≤ g → g ≤ k.num →
    (k.view (k.setPriority g o s).2).slot ((k.view s).number o - 1) = (k.view s).slot (g - 1) ∧
    ∀ p, (k.view s).slot (g - 1) = some p →
      (k.view (k.setPriority g o s).2).number p = (k.view s).number o
  others : 1 ≤ g → g ≤ k.num → ∀ i, i < k.num → i ≠ g - 1 → i ≠ (k.view s).number o - 1 →
    (k.view (k.setPriority g o s).2).slot i = (k.view s).slot i
  refused : ¬ (1 ≤ g ∧ g ≤ k.num) → (k.setPriority g o s).2 = s
  inside : ∀ i ∈ (k.setPriority g o s).1, i < k.num

variable {k : QueueKind} {s : TftLcd} {o g : Nat}

/-- A number that is refused. -/
theorem setPriority_refused (h : g < 1 ∨ g > k.num + 1) : k.setPriority g o s = ([], s) := by
  cases k with
  | cycle =>
    have hc : g < 1 ∨ g > cycleEventQueueNum + 1 := h
    rw [QueueKind.setPriority, tftlcdSetCycleEventPriority, setEventPriority, if_pos hc]
  | once =>
    have ho : g < 1 ∨ g > onceEventQueueNum + 1 := h
    rw [QueueKind.setPriority, tftlcdSetOnceEventPriority, setEventPriority, if_pos ho]

/-- **What a change really does**: it exchanges the slots *after* those of the two numbers, and
writes the number of the object only. -/
theorem setPriority_accepted (h : ¬ (g < 1 ∨ g > k.num + 1)) :
    (k.setPriority g o s).1 = [g, g, (k.view s).number o] ∧
    (k.view (k.setPriority g o s).2).slot =
      Function.update (Function.update (k.view s).slot g (some o)) ((k.view s).number o)
        ((k.view s).slot g) ∧
    (k.view (k.setPriority g o s).2).number = Function.update (k.view s).number o g := by
  cases k with
  | cycle =>
    have hc : ¬ (g < 1 ∨ g > cycleEventQueueNum + 1) := h
    rw [QueueKind.setPriority, tftlcdSetCycleEventPriority, setEventPriority, if_neg hc]
    refine ⟨rfl, rfl, ?_⟩
    funext p
    by_cases hp : p = o
    · simp [QueueKind.view, cycleView, hp]
    · simp [QueueKind.view, cycleView, hp]
  | once =>
    have ho : ¬ (g < 1 ∨ g > onceEventQueueNum + 1) := h
    rw [QueueKind.setPriority, tftlcdSetOnceEventPriority, setEventPriority, if_neg ho]
    refine ⟨rfl, rfl, ?_⟩
    funext p
    by_cases hp : p = o
    · simp [QueueKind.view, onceView, hp]
    · simp [QueueKind.view, onceView, hp]

/-- A number that is refused changes nothing. -/
theorem priorityLaw_refused (h : g < 1 ∨ g > k.num + 1) : PriorityLaw k s o g := by
  have heq : k.setPriority g o s = ([], s) := setPriority_refused h
  refine ⟨?_, ?_, ?_, ?_, ?_⟩
  · exact fun h1 h2 => absurd h (by omega)
  · exact fun h1 h2 => absurd h (by omega)
  · exact fun h1 h2 => absurd h (by omega)
  · exact fun _ => by rw [heq]
  · rw [heq]
    exact fun j hj => absurd hj List.not_mem_nil

/-- A change that does what it should is to the number the object has: the slot of the new number is
not the one that is written, so the object was there before. -/
theorem PriorityLaw.own {i : Nat} (h : PriorityLaw k s o g) (hplaced : Placed k.num (k.view s))
    (hi : i < k.num) (hslot : (k.view s).slot i = some o) (hrange : ¬ (g < 1 ∨ g > k.num + 1)) :
    g = (k.view s).number o ∧ g < k.num := by
  obtain ⟨hidx, hslots, -⟩ := setPriority_accepted (o := o) (s := s) hrange
  have hnum := hplaced i o hi hslot
  have hg : g < k.num := h.inside g (by rw [hidx]; simp)
  refine ⟨?_, hg⟩
  have hmoved := (h.moved (by omega) (by omega)).1
  rw [hslots, hnum] at hmoved
  rcases Nat.lt_trichotomy (g - 1) (i + 1) with hlt | heq | hgt
  · rw [Function.update_of_ne (by omega), Function.update_of_ne (by omega)] at hmoved
    have := hplaced (g - 1) o (by omega) hmoved
    omega
  · rw [heq, Function.update_self] at hmoved
    have := hplaced g o hg hmoved
    omega
  · rw [Function.update_of_ne (by omega), Function.update_of_ne (by omega)] at hmoved
    have := hplaced (g - 1) o (by omega) hmoved
    omega

/-- A change to the number the object has: the two slots are one, which is written with the object
and then again with what it held. -/
theorem priorityLaw_own {i : Nat} (hplaced : Placed k.num (k.view s)) (hi : i < k.num)
    (hslot : (k.view s).slot i = some o) (hg : i + 1 < k.num) : PriorityLaw k s o (i + 1) := by
  obtain ⟨hidx, hslots, hnumbers⟩ :=
    setPriority_accepted (k := k) (g := i + 1) (o := o) (s := s) (by omega)
  have hnum := hplaced i o hi hslot
  have hsame : (k.view (k.setPriority (i + 1) o s).2).slot = (k.view s).slot := by
    rw [hslots, hnum, Function.update_idem, Function.update_eq_self]
  have hsameNum : (k.view (k.setPriority (i + 1) o s).2).number = (k.view s).number := by
    rw [hnumbers, ← hnum, Function.update_eq_self]
  refine ⟨fun _ _ => ?_, fun _ _ => ?_, fun _ _ j _ _ _ => by rw [hsame], ?_, ?_⟩
  · rw [hsame, hsameNum]
    exact ⟨hslot, hnum⟩
  · rw [hsame, hsameNum, hnum]
    refine ⟨rfl, fun p hp => ?_⟩
    exact hplaced i p hi hp
  · exact fun hout => absurd ⟨Nat.le_add_left 1 i, Nat.le_of_lt hg⟩ hout
  · rw [hidx, hnum]
    simpa using hg

/-- **Priority change is a swap** iff there is nothing to swap: for both queues, every state in
which the objects are where their numbers say, every registered object and every number, the change
does what it should iff the number is refused, or it is the object's own and not the last one. -/
theorem priority_iff (k : QueueKind) (s : TftLcd) (o g : Nat) (hplaced : Placed k.num (k.view s))
    (hreg : ∃ i, i < k.num ∧ (k.view s).slot i = some o) :
    PriorityLaw k s o g ↔
      g = 0 ∨ k.num + 1 < g ∨ g = (k.view s).number o ∧ g < k.num := by
  obtain ⟨i, hi, hslot⟩ := hreg
  have hnum := hplaced i o hi hslot
  by_cases hrange : g < 1 ∨ g > k.num + 1
  · exact iff_of_true (priorityLaw_refused hrange) (by omega)
  constructor
  · intro h
    exact .inr (.inr (h.own hplaced hi hslot hrange))
  · intro h
    obtain ⟨rfl, hg⟩ : g = i + 1 ∧ g < k.num := by omega
    exact priorityLaw_own hplaced hi hslot hg

/-- Two once events, in the first two slots. -/
def twoOnceEvents : TftLcd :=
  { lcdReset with
    onceEventQueue := fun i => if i = 0 then some 7 else if i = 1 then some 8 else none
    once := fun o => if o = 7 then ⟨1, .inactive, 0, 0⟩ else ⟨2, .inactive, 0, 0⟩ }

/-- The second event asks for the number it has. -/
theorem priority_own_number : PriorityLaw .once twoOnceEvents 8 2 := by
  refine (priority_iff .once twoOnceEvents 8 2 ?_ ⟨1, by decide, rfl⟩).mpr (by decide)
  intro i o _ hs
  simp only [twoOnceEvents, QueueKind.view, onceView] at hs ⊢
  split at hs
  · rename_i hi
    obtain rfl : 7 = o := Option.some.inj hs
    simp [hi]
  · split at hs
    · rename_i hi
      obtain rfl : 8 = o := Option.some.inj hs
      simp [hi]
    · exact absurd hs (by simp)

/-- The second event asks for the first place: it keeps its slot, gets the next one too, and has
the number 1. -/
theorem priority_swap_fails : ¬ PriorityLaw .once twoOnceEvents 8 1 := by
  intro h
  exact absurd (h.moved (by decide) (by decide)).1 (by decide)

end Stm32F407.Lcd
