import Stm32F407.Lcd.Dispatch
import Stm32F407.Lcd.Register
import Mathlib.Algebra.Order.Group.Nat

/-!
# The period of a cycle event

`_TFTLCD_CycleBaseOnFunc` calls the `OnFunc` of an active cycle event when the passes since its
first one, counted modulo 0xFFFF, are a multiple of its period. The counter has 0xFFFF values, so
after a whole turn the count of passes starts again at 0, in the middle of a period.

* `callsIn`: the calls of the event's `OnFunc` that one pass records.
* `CycleRun.callsIn_eq`: from its first active pass `t₀` on, the event is called in pass `t`, once,
  iff its period divides `(t - t₀) % 0xFFFF`, and in no other pass.
* `period_iff`: over every unbounded run in which the event stays active, it is called once in each
  of the passes `t₀ + k * P` and in no other pass iff `P` divides 0xFFFF.
-/

namespace Stm32F407.Lcd

open Stm32F407.Lib

/-! ## One call of the base function -/

/-- The first pass of an event leaves its count in the object. -/
def CycleEvent.stamp (eventCnt : Nat) (obj : CycleEvent) : CycleEvent :=
  if obj.eventInitCtn = 0 then { obj with eventInitCtn := eventCnt } else obj

/-- The test of `_TFTLCD_CycleBaseOnFunc`. -/
def CycleEvent.Due (eventCnt : Nat) (obj : CycleEvent) : Prop :=
  (eventCycleCntValue + eventCnt + 2 ^ 32 - (obj.stamp eventCnt).eventInitCtn) % 2 ^ 32 %
    eventCycleCntValue % obj.eventPeriodCnt = 0

instance (eventCnt : Nat) (obj : CycleEvent) : Decidable (obj.Due eventCnt) :=
  inferInstanceAs (Decidable (_ = _))

@[simp] theorem stamp_eventPeriodCnt (c : Nat) (obj : CycleEvent) :
    (obj.stamp c).eventPeriodCnt = obj.eventPeriodCnt := by
  unfold CycleEvent.stamp
  split <;> rfl

@[simp] theorem stamp_onFunc (c : Nat) (obj : CycleEvent) : (obj.stamp c).onFunc = obj.onFunc := by
  unfold CycleEvent.stamp
  split <;> rfl

/-- The state with the object `o` stamped. -/
def TftLcd.stamp (s : TftLcd) (c o : Nat) : TftLcd :=
  { s with cycle := Function.update s.cycle o ((s.cycle o).stamp c) }

/-- **`OnFunc` is called** iff the event is due. -/
theorem tftlcdCycleBaseOnFunc_eq (env : Env) (i c o : Nat) (s : TftLcd) :
    tftlcdCycleBaseOnFunc env i c o s =
      if (s.cycle o).Due c then
        ((s.stamp c o).logCall o).call (env (.cycleFunc i) (s.cycle o).onFunc)
      else s.stamp c o := by
  have hstamp : (if (s.cycle o).eventInitCtn = 0 then
      { s with cycle := Function.update s.cycle o { s.cycle o with eventInitCtn := c } }
      else s) = s.stamp c o := by
    unfold TftLcd.stamp CycleEvent.stamp
    split
    · rfl
    · rw [Function.update_eq_self]
  unfold tftlcdCycleBaseOnFunc
  rw [hstamp]
  have hobj : (s.stamp c o).cycle o = (s.cycle o).stamp c := Function.update_self ..
  simp only [hobj, stamp_eventPeriodCnt, stamp_onFunc]
  rfl

/-! ## What a pass leaves alone -/

/-- The queue of the cycle events, the counter, and the count and the period of the object `o` are
as before, and no call of its `OnFunc` is recorded. -/
structure CycleFrame (o : Nat) (s s' : TftLcd) : Prop where
  queue : s'.cycleEventQueue = s.cycleEventQueue
  count : s'.eventCycleCnt = s.eventCycleCnt
  init : (s'.cycle o).eventInitCtn = (s.cycle o).eventInitCtn
  period : (s'.cycle o).eventPeriodCnt = (s.cycle o).eventPeriodCnt
  calls : ∃ l, s'.cycleCalls = s.cycleCalls ++ l ∧ o ∉ l

variable {o i : Nat} {s s' : TftLcd}

theorem CycleFrame.rfl : CycleFrame o s s :=
  ⟨Eq.refl _, Eq.refl _, Eq.refl _, Eq.refl _, [], (List.append_nil _).symm, List.not_mem_nil⟩

theorem CycleFrame.trans {s'' : TftLcd} (h : CycleFrame o s s') (h' : CycleFrame o s' s'') :
    CycleFrame o s s'' where
  queue := h'.queue.trans h.queue
  count := h'.count.trans h.count
  init := h'.init.trans h.init
  period := h'.period.trans h.period
  calls := by
    obtain ⟨l, hl, ho⟩ := h.calls
    obtain ⟨l', hl', ho'⟩ := h'.calls
    refine ⟨l ++ l', by rw [hl', hl, List.append_assoc], fun hmem => ?_⟩
    exact (List.mem_append.mp hmem).elim ho ho'

/-- A callback writes statuses only. -/
theorem cycleFrame_call (s : TftLcd) (ws : List StatusWrite) : CycleFrame o s (s.call ws) := by
  induction ws generalizing s with
  | nil => exact .rfl
  | cons w ws ih =>
    refine CycleFrame.trans ?_ (ih (s.write w))
    cases w with
    | cycle p st =>
      by_cases hp : o = p
      · subst hp
        constructor <;> simp [TftLcd.write]
      · constructor <;> simp [TftLcd.write, hp]
    | once p st => constructor <;> simp [TftLcd.write, TftLcd.setOnceStatus, TftLcd.log]

/-- The first loop leaves the cycle events alone. -/
theorem cycleFrame_onceSlot (env : Env) (j : Nat) (s : TftLcd) :
    CycleFrame o s (onceSlot env j s) := by
  rcases onceSlot_eq env j s with ⟨heq, -⟩ | ⟨p, ws, -, -, heq⟩
  · rw [heq]
    exact .rfl
  · rw [heq]
    refine CycleFrame.trans ?_ (cycleFrame_call _ ws)
    have hcall := cycleFrame_call (o := o) (s.log (.start p)) (env (.onFunc j) (s.once p).onFunc)
    exact ⟨hcall.queue, hcall.count, hcall.init, hcall.period, hcall.calls⟩

/-- Another object's slot leaves the object alone. -/
theorem cycleFrame_cycleSlot (env : Env) {j : Nat} (hj : s.cycleEventQueue j ≠ some o) :
    CycleFrame o s (cycleSlot env j s) := by
  unfold cycleSlot
  cases hq : s.cycleEventQueue j with
  | none => exact .rfl
  | some p =>
    have hne : o ≠ p := fun he => hj (he ▸ hq)
    have hstamp : CycleFrame o s (s.stamp s.eventCycleCnt p) := by
      constructor <;> simp [TftLcd.stamp, hne]
    have hlog : CycleFrame o (s.stamp s.eventCycleCnt p)
        ((s.stamp s.eventCycleCnt p).logCall p) :=
      ⟨Eq.refl _, Eq.refl _, Eq.refl _, Eq.refl _, [p], Eq.refl _, by simpa using hne⟩
    dsimp only
    split
    · rw [tftlcdCycleBaseOnFunc_eq]
      split
      · exact (hstamp.trans hlog).trans (cycleFrame_call _ _)
      · exact hstamp
    · exact .rfl

/-- A loop over slots that leave the object alone leaves it alone. -/
theorem cycleFrame_run {slot : TftLcd → Nat → TftLcd} {is : List Nat}
    (hslot : ∀ t j, j ∈ is → t.cycleEventQueue = s.cycleEventQueue → CycleFrame o t (slot t j)) :
    CycleFrame o s (run slot s is) := by
  induction is generalizing s with
  | nil => exact .rfl
  | cons j is ih =>
    have h := hslot s j List.mem_cons_self (Eq.refl _)
    exact h.trans (ih fun t k hk hq => hslot t k (List.mem_cons_of_mem j hk) (hq.trans h.queue))

/-! ## One pass -/

/-- The state in which the second loop of a pass reaches the slot `i`. -/
def atSlot (env : Env) (s : TftLcd) (i : Nat) : TftLcd :=
  run (fun s j => cycleSlot env j s)
    (run (fun s j => onceSlot env j s) s (List.range onceEventQueueNum)) (List.range i)

/-- The pass finds the object `o` in the slot `i`, active. -/
def ActiveIn (env : Env) (s : TftLcd) (i o : Nat) : Prop :=
  (atSlot env s i).cycleEventQueue i = some o ∧
    ((atSlot env s i).cycle o).eventStatus = .active

/-- The calls of the `OnFunc` of the cycle object `o` that the pass records. -/
def callsIn (env : Env) (s : TftLcd) (o : Nat) : Nat :=
  ((tftlcdEventProcess env s).cycleCalls.drop s.cycleCalls.length).count o

/-- The object is in the slot `i` and in no other. -/
structure AtOnly (s : TftLcd) (i o : Nat) : Prop where
  here : s.cycleEventQueue i = some o
  alone : ∀ j, j < cycleEventQueueNum → j ≠ i → s.cycleEventQueue j ≠ some o

/-- Up to its slot a pass leaves the object alone. -/
theorem cycleFrame_atSlot (env : Env) (hi : i < cycleEventQueueNum) (h : AtOnly s i o) :
    CycleFrame o s (atSlot env s i) := by
  have honce : CycleFrame o s
      (run (fun s j => onceSlot env j s) s (List.range onceEventQueueNum)) :=
    cycleFrame_run fun t j _ _ => cycleFrame_onceSlot env j t
  refine honce.trans (cycleFrame_run fun t j hj hq => cycleFrame_cycleSlot env ?_)
  have hj' := List.mem_range.mp hj
  rw [hq, honce.queue]
  exact h.alone j (by omega) (by omega)

/-- The slots of the second loop, with the slot `i` taken out. -/
theorem range_split {n : Nat} (hi : i < n) :
    ∃ rest, List.range n = List.range i ++ i :: rest ∧ ∀ j ∈ rest, j < n ∧ j ≠ i := by
  refine ⟨(List.range (n - i - 1)).map (i + 1 + ·), ?_, fun j hj => ?_⟩
  · have hn : n = i + (1 + (n - i - 1)) := by omega
    conv_lhs => rw [hn, List.range_add, List.range_add]
    simp [List.map_map, Function.comp_def, Nat.add_assoc]
  · obtain ⟨k, hk, rfl⟩ := List.mem_map.mp hj
    have := List.mem_range.mp hk
    omega

/-- The end of a pass: the counter goes on. -/
def TftLcd.advance (s : TftLcd) : TftLcd :=
  { s with eventCycleCnt := s.eventCycleCnt % eventCycleCntValue + 1 }

/-- A pass is the pass up to the slot `i`, the slot, and the slots after it. -/
theorem eventProcess_split (env : Env) (s : TftLcd) {rest : List Nat}
    (hrange : List.range cycleEventQueueNum = List.range i ++ i :: rest) :
    tftlcdEventProcess env s =
      (run (fun s j => cycleSlot env j s) (cycleSlot env i (atSlot env s i)) rest).advance := by
  have hpass : tftlcdEventProcess env s =
      (run (fun s j => cycleSlot env j s)
        (run (fun s j => onceSlot env j s) s (List.range onceEventQueueNum))
        (List.range cycleEventQueueNum)).advance := rfl
  rw [hpass, hrange, run_append, run_cons]
  rfl

/-- After its slot a pass leaves the object alone. -/
theorem eventProcess_after (env : Env) (hi : i < cycleEventQueueNum) (h : AtOnly s i o)
    (hqueue : (cycleSlot env i (atSlot env s i)).cycleEventQueue = s.cycleEventQueue) :
    ∃ u, tftlcdEventProcess env s = u.advance ∧
      CycleFrame o (cycleSlot env i (atSlot env s i)) u := by
  obtain ⟨rest, hrange, hrest⟩ := range_split hi
  refine ⟨_, eventProcess_split env s hrange, ?_⟩
  refine cycleFrame_run fun u j hj hq => cycleFrame_cycleSlot env ?_
  rw [hq, hqueue]
  exact h.alone j (hrest j hj).1 (hrest j hj).2

/-- An active object as its slot leaves it before the callback: stamped, and with a call on record
if it is due. -/
def TftLcd.served (s : TftLcd) (o : Nat) : TftLcd :=
  if (s.cycle o).Due s.eventCycleCnt then (s.stamp s.eventCycleCnt o).logCall o
  else s.stamp s.eventCycleCnt o

theorem served_spec (s : TftLcd) (o : Nat) :
    (s.served o).cycleEventQueue = s.cycleEventQueue ∧
    (s.served o).eventCycleCnt = s.eventCycleCnt ∧
    (s.served o).cycle o = (s.cycle o).stamp s.eventCycleCnt ∧
    (s.served o).cycleCalls =
      s.cycleCalls ++ if (s.cycle o).Due s.eventCycleCnt then [o] else [] := by
  have hstamp : (s.stamp s.eventCycleCnt o).cycle o = (s.cycle o).stamp s.eventCycleCnt :=
    Function.update_self ..
  -- the test is decided before the fields are read, since it does not reduce
  by_cases hdue : (s.cycle o).Due s.eventCycleCnt
  · have hserved : s.served o = (s.stamp s.eventCycleCnt o).logCall o := if_pos hdue
    rw [hserved, if_pos hdue]
    exact ⟨rfl, rfl, hstamp, rfl⟩
  · have hserved : s.served o = s.stamp s.eventCycleCnt o := if_neg hdue
    rw [hserved, if_neg hdue]
    exact ⟨rfl, rfl, hstamp, (List.append_nil _).symm⟩

/-- The slot of an active object. -/
theorem cycleFrame_active {env : Env} (hact : ActiveIn env s i o) :
    CycleFrame o ((atSlot env s i).served o) (cycleSlot env i (atSlot env s i)) := by
  unfold cycleSlot TftLcd.served
  rw [hact.1]
  dsimp only
  rw [if_pos hact.2, tftlcdCycleBaseOnFunc_eq]
  split
  · exact cycleFrame_call _ _
  · exact .rfl

/-- The slot of an object that is not active. -/
theorem cycleSlot_inactive {env : Env} (hq : (atSlot env s i).cycleEventQueue i = some o)
    (hact : ¬ ActiveIn env s i o) : cycleSlot env i (atSlot env s i) = atSlot env s i := by
  unfold cycleSlot
  rw [hq]
  exact if_neg fun hst => hact ⟨hq, hst⟩

/-- A pass that finds the object active. -/
theorem eventProcess_active {env : Env} (hi : i < cycleEventQueueNum) (h : AtOnly s i o)
    (hact : ActiveIn env s i o) :
    ∃ u, tftlcdEventProcess env s = u.advance ∧ CycleFrame o ((atSlot env s i).served o) u := by
  have hslot := cycleFrame_active hact
  have hqueue := hslot.queue.trans (served_spec _ o).1
  obtain ⟨u, hpass, hafter⟩ :=
    eventProcess_after env hi h (hqueue.trans (cycleFrame_atSlot env hi h).queue)
  exact ⟨u, hpass, hslot.trans hafter⟩

/-- A pass that does not. -/
theorem eventProcess_inactive {env : Env} (hi : i < cycleEventQueueNum) (h : AtOnly s i o)
    (hact : ¬ ActiveIn env s i o) :
    ∃ u, tftlcdEventProcess env s = u.advance ∧ CycleFrame o s u := by
  have hat := cycleFrame_atSlot env hi h
  have hslot := cycleSlot_inactive (by rw [hat.queue]; exact h.here) hact
  obtain ⟨u, hpass, hafter⟩ := eventProcess_after env hi h (by rw [hslot]; exact hat.queue)
  rw [hslot] at hafter
  exact ⟨u, hpass, hat.trans hafter⟩

/-- **What a pass does to the object of slot `i`**: its count is stamped if it is active for the
first time, the queue and its period stay, and the counter goes on. -/
theorem eventProcess_cycle (env : Env) (hi : i < cycleEventQueueNum) (h : AtOnly s i o) :
    (tftlcdEventProcess env s).cycleEventQueue = s.cycleEventQueue ∧
    (tftlcdEventProcess env s).eventCycleCnt = s.eventCycleCnt % eventCycleCntValue + 1 ∧
    ((tftlcdEventProcess env s).cycle o).eventPeriodCnt = (s.cycle o).eventPeriodCnt ∧
    (¬ ActiveIn env s i o →
      ((tftlcdEventProcess env s).cycle o).eventInitCtn = (s.cycle o).eventInitCtn) ∧
    (ActiveIn env s i o → ((tftlcdEventProcess env s).cycle o).eventInitCtn =
      ((s.cycle o).stamp s.eventCycleCnt).eventInitCtn) := by
  by_cases hact : ActiveIn env s i o
  · have hat := cycleFrame_atSlot env hi h
    obtain ⟨hqueue, hcount, hobj, -⟩ := served_spec (atSlot env s i) o
    obtain ⟨u, hpass, hend⟩ := eventProcess_active hi h hact
    rw [hpass]
    refine ⟨hend.queue.trans (hqueue.trans hat.queue), ?_, ?_, fun hn => absurd hact hn,
      fun _ => ?_⟩
    · exact congrArg (· % eventCycleCntValue + 1) (hend.count.trans (hcount.trans hat.count))
    · refine hend.period.trans ?_
      rw [hobj, stamp_eventPeriodCnt]
      exact hat.period
    · refine hend.init.trans ?_
      rw [hobj]
      simp only [CycleEvent.stamp, hat.init, hat.count]
      split
      · rfl
      · exact hat.init
  · obtain ⟨u, hpass, hend⟩ := eventProcess_inactive hi h hact
    rw [hpass]
    refine ⟨hend.queue, ?_, hend.period, fun _ => hend.init, fun hn => absurd hn hact⟩
    exact congrArg (· % eventCycleCntValue + 1) hend.count

/-- The calls that a pass adds to the record. -/
theorem callsIn_of_append {env : Env} {l : List Nat}
    (h : (tftlcdEventProcess env s).cycleCalls = s.cycleCalls ++ l) :
    callsIn env s o = l.count o := by
  rw [callsIn, h, List.drop_left]

/-- **The calls of a pass**: one if the object is active and due. -/
theorem callsIn_active {env : Env} (hi : i < cycleEventQueueNum) (h : AtOnly s i o)
    (hact : ActiveIn env s i o) :
    callsIn env s o =
      if ((atSlot env s i).cycle o).Due (atSlot env s i).eventCycleCnt then 1 else 0 := by
  obtain ⟨-, -, -, hcall⟩ := served_spec (atSlot env s i) o
  obtain ⟨before, hbefore, hb⟩ := (cycleFrame_atSlot env hi h).calls
  obtain ⟨u, hpass, hend⟩ := eventProcess_active hi h hact
  obtain ⟨after, hafter, ha⟩ := hend.calls
  have hcalls : (tftlcdEventProcess env s).cycleCalls = s.cycleCalls ++ (before ++
      ((if ((atSlot env s i).cycle o).Due (atSlot env s i).eventCycleCnt then [o] else []) ++
        after)) := by
    rw [hpass]
    refine hafter.trans ?_
    rw [hcall, hbefore]
    simp only [List.append_assoc]
  rw [callsIn_of_append hcalls, List.count_append, List.count_append, List.count_eq_zero.mpr hb,
    List.count_eq_zero.mpr ha]
  split <;> simp

theorem callsIn_inactive {env : Env} (hi : i < cycleEventQueueNum) (h : AtOnly s i o)
    (hact : ¬ ActiveIn env s i o) : callsIn env s o = 0 := by
  obtain ⟨u, hpass, hend⟩ := eventProcess_inactive hi h hact
  obtain ⟨l, hl, hnot⟩ := hend.calls
  have hcalls : (tftlcdEventProcess env s).cycleCalls = s.cycleCalls ++ l := by
    rw [hpass]
    exact hl
  rw [callsIn_of_append hcalls, List.count_eq_zero.mpr hnot]

/-! ## Runs -/

/-- What the rest of the program may do from `u` to `v`: anything but move the object `o` in the
queue, write its count or its period, or touch the counter of the passes. -/
structure Outside (o : Nat) (u v : TftLcd) : Prop where
  count : v.eventCycleCnt = u.eventCycleCnt
  init : (v.cycle o).eventInitCtn = (u.cycle o).eventInitCtn
  period : (v.cycle o).eventPeriodCnt = (u.cycle o).eventPeriodCnt
  places : ∀ j, j < cycleEventQueueNum →
    (v.cycleEventQueue j = some o ↔ u.cycleEventQueue j = some o)

/-- An unbounded run of passes, `s t` being the state before pass `t`, after the object `o`, which
was in no slot, has been registered in the slot `i` with the period `P`. -/
structure CycleRun (P o i : Nat) (env : Nat → Env) (s : Nat → TftLcd) : Prop where
  registered : ∃ onFunc r, 1 ≤ r.eventCycleCnt ∧ r.eventCycleCnt ≤ eventCycleCntValue ∧
    (∀ j, j < cycleEventQueueNum → r.cycleEventQueue j ≠ some o) ∧
    tftlcdGetCycleEQNumber r = i + 1 ∧
    Outside o (tftlcdCycleEventRegister onFunc P o r).2 (s 0)
  pass : ∀ t, Outside o (tftlcdEventProcess (env t) (s t)) (s (t + 1))

theorem Outside.atOnly {u v : TftLcd} (h : Outside o u v) (hi : i < cycleEventQueueNum)
    (hu : AtOnly u i o) : AtOnly v i o where
  here := (h.places i hi).mpr hu.here
  alone j hj hne hv := hu.alone j hj hne ((h.places j hj).mp hv)

/-- The search stays below the slot it starts at. -/
theorem getEQNumber_le (queue : Nat → Option Nat) (number : Nat → Nat) (n : Nat) :
    getEQNumber queue number n ≤ n := by
  induction n with
  | zero => exact Nat.le_refl _
  | succ n ih =>
    rw [getEQNumber]
    split
    · exact Nat.le_refl _
    · split
      · exact Nat.le_refl _
      · exact Nat.le_succ_of_le ih

variable {P : Nat} {env : Nat → Env} {s : Nat → TftLcd}

theorem CycleRun.slot_lt (h : CycleRun P o i env s) : i < cycleEventQueueNum := by
  obtain ⟨onFunc, r, -, -, -, hnum, -⟩ := h.registered
  have hle : tftlcdGetCycleEQNumber r ≤ cycleEventQueueNum := getEQNumber_le ..
  omega

/-- The run starts with the object in its slot only, not yet stamped. -/
theorem CycleRun.start (h : CycleRun P o i env s) :
    AtOnly (s 0) i o ∧ 1 ≤ (s 0).eventCycleCnt ∧ (s 0).eventCycleCnt ≤ eventCycleCntValue ∧
      ((s 0).cycle o).eventInitCtn = 0 ∧ ((s 0).cycle o).eventPeriodCnt = P := by
  obtain ⟨onFunc, r, hpos, hle, hfresh, hnum, hout⟩ := h.registered
  have hreg : (tftlcdCycleEventRegister onFunc P o r).2 =
      { r with
        cycle := Function.update r.cycle o ⟨i + 1, .inactive, 0, P, onFunc⟩
        cycleEventQueue := Function.update r.cycleEventQueue i (some o) } := by
    rw [tftlcdCycleEventRegister, hnum, if_neg (Nat.succ_ne_zero i), Nat.add_sub_cancel]
  rw [hreg] at hout
  refine ⟨hout.atOnly h.slot_lt ⟨Function.update_self .., fun j hj hne => ?_⟩, ?_, ?_, ?_, ?_⟩
  · dsimp only
    rw [Function.update_of_ne hne]
    exact hfresh j hj
  · rw [hout.count]
    exact hpos
  · rw [hout.count]
    exact hle
  · rw [hout.init]
    simp
  · rw [hout.period]
    simp

/-- The object stays in its slot with its period, and the counter counts the passes. -/
theorem CycleRun.at (h : CycleRun P o i env s) (t : Nat) :
    AtOnly (s t) i o ∧ ((s t).cycle o).eventPeriodCnt = P ∧
      (s t).eventCycleCnt = ((s 0).eventCycleCnt - 1 + t) % eventCycleCntValue + 1 := by
  obtain ⟨hat, hpos, hle, -, hperiod⟩ := h.start
  induction t with
  | zero =>
    refine ⟨hat, hperiod, ?_⟩
    unfold eventCycleCntValue at hle ⊢
    omega
  | succ t ih =>
    obtain ⟨hat', hperiod', hcount'⟩ := ih
    obtain ⟨hqueue, hcount, hper, -, -⟩ := eventProcess_cycle (env t) h.slot_lt hat'
    have hout := h.pass t
    refine ⟨hout.atOnly h.slot_lt ⟨?_, ?_⟩, ?_, ?_⟩
    · rw [hqueue]
      exact hat'.here
    · rw [hqueue]
      exact hat'.alone
    · rw [hout.period, hper, hperiod']
    · rw [hout.count, hcount, hcount']
      unfold eventCycleCntValue
      omega

/-- Until its first active pass the event is not stamped. -/
theorem CycleRun.init_before (h : CycleRun P o i env s) {t₀ : Nat}
    (hidle : ∀ t, t < t₀ → ¬ ActiveIn (env t) (s t) i o) {t : Nat} (ht : t ≤ t₀) :
    ((s t).cycle o).eventInitCtn = 0 := by
  induction t with
  | zero => exact h.start.2.2.2.1
  | succ t ih =>
    obtain ⟨-, -, -, hinit, -⟩ := eventProcess_cycle (env t) h.slot_lt (h.at t).1
    rw [(h.pass t).init, hinit (hidle t ht), ih (Nat.le_of_succ_le ht)]

/-- From then on it keeps the count of that pass. -/
theorem CycleRun.init_after (h : CycleRun P o i env s) {t₀ : Nat}
    (hactive : ∀ t, ActiveIn (env t) (s t) i o ↔ t₀ ≤ t) (n : Nat) :
    ((s (t₀ + 1 + n)).cycle o).eventInitCtn = (s t₀).eventCycleCnt := by
  induction n with
  | zero =>
    obtain ⟨-, -, -, -, hinit⟩ := eventProcess_cycle (env t₀) h.slot_lt (h.at t₀).1
    have hzero : ((s t₀).cycle o).eventInitCtn = 0 :=
      h.init_before (fun t ht hact => absurd ((hactive t).mp hact) (by omega)) (Nat.le_refl t₀)
    rw [Nat.add_zero, (h.pass t₀).init, hinit ((hactive t₀).mpr (Nat.le_refl t₀)),
      CycleEvent.stamp, if_pos hzero]
  | succ n ih =>
    obtain ⟨-, -, -, -, hinit⟩ := eventProcess_cycle (env (t₀ + 1 + n)) h.slot_lt (h.at _).1
    have hne : ((s (t₀ + 1 + n)).cycle o).eventInitCtn ≠ 0 := by
      rw [ih, (h.at t₀).2.2]
      exact Nat.succ_ne_zero _
    rw [← Nat.add_assoc, (h.pass _).init, hinit ((hactive _).mpr (by omega)), CycleEvent.stamp,
      if_neg hne, ih]

/-- From then on it is due in the passes in which the period divides the passes since `t₀`, counted
modulo 0xFFFF. -/
theorem CycleRun.due_iff (h : CycleRun P o i env s) {t₀ : Nat}
    (hactive : ∀ t, ActiveIn (env t) (s t) i o ↔ t₀ ≤ t) {t : Nat} (ht : t₀ ≤ t) :
    ((atSlot (env t) (s t) i).cycle o).Due (atSlot (env t) (s t) i).eventCycleCnt ↔
      (t - t₀) % eventCycleCntValue % P = 0 := by
  obtain ⟨hat, hperiod, hcount⟩ := h.at t
  have hframe := cycleFrame_atSlot (env t) h.slot_lt hat
  have hcount₀ := (h.at t₀).2.2
  -- the stamp is the count of the pass `t₀`
  have hstamp : (((atSlot (env t) (s t) i).cycle o).stamp (s t).eventCycleCnt).eventInitCtn =
      (s t₀).eventCycleCnt := by
    rcases Nat.eq_or_lt_of_le ht with rfl | hlt
    · have hzero : ((s t₀).cycle o).eventInitCtn = 0 :=
        h.init_before (fun t ht hact => absurd ((hactive t).mp hact) (by omega)) (Nat.le_refl t₀)
      rw [CycleEvent.stamp, if_pos (hframe.init.trans hzero)]
    · have hafter := h.init_after hactive (t - t₀ - 1)
      rw [show t₀ + 1 + (t - t₀ - 1) = t by omega] at hafter
      have hinit := hframe.init.trans hafter
      have hne : ((atSlot (env t) (s t) i).cycle o).eventInitCtn ≠ 0 := by
        rw [hinit, hcount₀]
        exact Nat.succ_ne_zero _
      rw [CycleEvent.stamp, if_neg hne, hinit]
  unfold CycleEvent.Due
  rw [hframe.count, hframe.period, hperiod, hstamp]
  have hphase : (eventCycleCntValue + (s t).eventCycleCnt + 2 ^ 32 - (s t₀).eventCycleCnt) %
      2 ^ 32 % eventCycleCntValue = (t - t₀) % eventCycleCntValue := by
    rw [hcount, hcount₀]
    unfold eventCycleCntValue
    omega
  rw [hphase]

/-- **When the event is called**, and how often. -/
theorem CycleRun.callsIn_eq (h : CycleRun P o i env s) {t₀ : Nat}
    (hactive : ∀ t, ActiveIn (env t) (s t) i o ↔ t₀ ≤ t) (t : Nat) :
    callsIn (env t) (s t) o =
      if t₀ ≤ t ∧ (t - t₀) % eventCycleCntValue % P = 0 then 1 else 0 := by
  by_cases ht : t₀ ≤ t
  · rw [callsIn_active h.slot_lt (h.at t).1 ((hactive t).mpr ht)]
    simp only [h.due_iff hactive ht, ht, true_and]
  · rw [callsIn_inactive h.slot_lt (h.at t).1 (mt (hactive t).mp ht), if_neg fun hn => ht hn.1]

/-- **Cycle events keep their period** iff it divides the number of the counter's values: over every
run in which the event is active from pass `t₀` on, its `OnFunc` is called once in each of the
passes `t₀ + k * P` and in no other pass iff `P` divides 0xFFFF. -/
theorem period_iff (P o i t₀ : Nat) (env : Nat → Env) (s : Nat → TftLcd)
    (h : CycleRun P o i env s) (hactive : ∀ t, ActiveIn (env t) (s t) i o ↔ t₀ ≤ t) :
    (∀ t, ((∃ k, t = t₀ + k * P) → callsIn (env t) (s t) o = 1) ∧
        ((¬ ∃ k, t = t₀ + k * P) → callsIn (env t) (s t) o = 0)) ↔
      P ∣ eventCycleCntValue := by
  constructor
  · intro hlaw
    -- after one turn of the counter the event is called, whatever its period
    have hturn := h.callsIn_eq hactive (t₀ + eventCycleCntValue)
    rw [Nat.add_sub_cancel_left, Nat.mod_self, Nat.zero_mod,
      if_pos ⟨Nat.le_add_right _ _, rfl⟩] at hturn
    by_contra hdvd
    have hnone : ¬ ∃ k, t₀ + eventCycleCntValue = t₀ + k * P := by
      rintro ⟨k, hk⟩
      exact hdvd ⟨k, by rw [Nat.mul_comm]; omega⟩
    have hzero := (hlaw _).2 hnone
    omega
  · intro hdvd t
    rw [h.callsIn_eq hactive, Nat.mod_mod_of_dvd _ hdvd]
    constructor
    · rintro ⟨k, rfl⟩
      rw [if_pos ⟨Nat.le_add_right _ _, by rw [Nat.add_sub_cancel_left, Nat.mul_mod_left]⟩]
    · intro hnone
      refine if_neg ?_
      rintro ⟨ht, hmod⟩
      obtain ⟨k, hk⟩ := Nat.dvd_of_mod_eq_zero hmod
      exact hnone ⟨k, by rw [Nat.mul_comm]; omega⟩

/-- Callbacks that write nothing. -/
def quiet : Env := fun _ _ => []

/-- One cycle event, object 7 in the last slot, active. -/
def ticking (P init c : Nat) : TftLcd :=
  { lcdReset with
    cycleEventQueue := fun i => if i = 3 then some 7 else none
    cycle := fun _ => ⟨4, .active, init, P, 0⟩
    eventCycleCnt := c }

/-- Its run from the reset on. -/
def tickingRun (P t : Nat) : TftLcd :=
  ticking P (if t = 0 then 0 else 1) (t % eventCycleCntValue + 1)

theorem tickingRun_atOnly (P t : Nat) : AtOnly (tickingRun P t) 3 7 where
  here := rfl
  alone j _ hne := by simp [tickingRun, ticking, hne]

theorem tickingRun_activeIn (P t : Nat) : ActiveIn quiet (tickingRun P t) 3 7 := ⟨rfl, rfl⟩

theorem tickingRun_cycleRun (P : Nat) : CycleRun P 7 3 (fun _ => quiet) (tickingRun P) where
  registered := by
    refine ⟨0, lcdReset, by decide, by decide, fun _ _ => nofun, rfl, rfl, rfl, rfl, ?_⟩
    intro j _
    by_cases hj : j = 3
    · subst hj
      exact iff_of_true rfl rfl
    · refine iff_of_false (tickingRun_atOnly P 0 |>.alone j ‹_› hj) ?_
      show Function.update lcdReset.cycleEventQueue 3 (some 7) j ≠ some 7
      rw [Function.update_of_ne hj]
      exact nofun
  pass t := by
    obtain ⟨hqueue, hcount, hperiod, -, hinit⟩ :=
      eventProcess_cycle quiet (by decide) (tickingRun_atOnly P t)
    refine ⟨?_, ?_, ?_, ?_⟩
    · rw [hcount]
      simp only [ticking, tickingRun, eventCycleCntValue]
      omega
    · rw [hinit (tickingRun_activeIn P t)]
      by_cases ht : t = 0
      · subst ht
        rfl
      · simp [ticking, tickingRun, CycleEvent.stamp, ht]
    · rw [hperiod]
      rfl
    · intro j _
      rw [hqueue]
      rfl

/-- A period of 3 is kept over the turn of the counter. -/
theorem period_three :
    callsIn quiet (tickingRun 3 65535) 7 = 1 ∧ callsIn quiet (tickingRun 3 65536) 7 = 0 := by
  have hlaw := (period_iff 3 7 3 0 (fun _ => quiet) (tickingRun 3) (tickingRun_cycleRun 3)
    fun t => iff_of_true (tickingRun_activeIn 3 t) (Nat.zero_le t)).mpr (by decide)
  exact ⟨(hlaw 65535).1 ⟨21845, rfl⟩, (hlaw 65536).2 (by rintro ⟨k, hk⟩; omega)⟩

/-- A period of 2 is not: pass 65535 comes one pass after pass 65534. -/
theorem period_two_fails :
    ¬ ∀ t, ((∃ k, t = 0 + k * 2) → callsIn quiet (tickingRun 2 t) 7 = 1) ∧
      ((¬ ∃ k, t = 0 + k * 2) → callsIn quiet (tickingRun 2 t) 7 = 0) := by
  intro h
  have hactive : ∀ t, ActiveIn quiet (tickingRun 2 t) 3 7 ↔ 0 ≤ t := fun t =>
    iff_of_true (tickingRun_activeIn 2 t) (Nat.zero_le t)
  have hcalled : callsIn quiet (tickingRun 2 65535) 7 = 1 :=
    ((tickingRun_cycleRun 2).callsIn_eq hactive 65535).trans (if_pos (by decide))
  have hnone := (h 65535).2 (by rintro ⟨k, hk⟩; omega)
  omega

end Stm32F407.Lcd
