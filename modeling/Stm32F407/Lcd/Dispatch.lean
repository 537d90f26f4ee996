import Stm32F407.Lcd.Event
import Stm32F407.Lib.Runs

/-!
# Dispatch of once events

An activation is a write of `EVENT_STATE_ACTIVE` to a once event, by a callback or from outside. The
dispatcher answers it by calling `OnFunc`, then sets the event to `EVENT_STATE_INACTIVE` and calls
`OnCbFunc`.

Along the trace of the once objects, `note` keeps the set of unserved activations: a write of
`ACTIVE` adds the event, any other write takes the request back, and the start of `OnFunc` serves
it. The law of the trace (`ActLaw`) is that `OnFunc` is started only on a request, and that the
dispatcher never turns `ACTIVE` into `INACTIVE` over an unserved one.

* `onceSlot_spec`: one slot of the first loop keeps the law iff the `OnFunc` it runs does not end up
  activating its own event.
* `dispatch_run_iff`: the same over every run of passes and outside activations.
-/

namespace Stm32F407.Lcd

open Stm32F407.Lib

/-! ## The history of the once objects -/

/-- The unserved activations after one more act. -/
def note (u : Nat → Bool) : Act → Nat → Bool
  | .write o st => Function.update u o (decide (st = .active))
  | .start o => Function.update u o false
  | .clear _ _ => u

/-- What an act must find: a request, for `OnFunc` to start; none, for the dispatcher to clear an
active event. -/
def ActLaw (u : Nat → Bool) : Act → Prop
  | .write _ _ => True
  | .start o => u o = true
  | .clear o old => old = .active → u o = false

/-- The once events that are active at the beginning count as requested. -/
def requests (s : TftLcd) (o : Nat) : Bool := decide ((s.once o).eventStatus = .active)

/-- The law of a history. -/
def TraceLaw (u₀ : Nat → Bool) (s : TftLcd) : Prop := AllSteps note ActLaw u₀ s.trace

/-- The unserved activations. -/
def unserved (u₀ : Nat → Bool) (s : TftLcd) : Nat → Bool := run note u₀ s.trace

/-! ## What a callback leaves -/

/-- The acts of a callback on once objects. -/
def StatusWrite.act : StatusWrite → Option Act
  | .cycle _ _ => none
  | .once o st => some (.write o st)

/-- The last status the writes give the once object `p`. -/
def lastWrite (p : Nat) : List StatusWrite → Option EventState
  | [] => none
  | .cycle _ _ :: ws => lastWrite p ws
  | .once o st :: ws => (lastWrite p ws).or (if o = p then some st else none)

theorem call_trace (s : TftLcd) (ws : List StatusWrite) :
    (s.call ws).trace = s.trace ++ ws.filterMap StatusWrite.act := by
  induction ws generalizing s with
  | nil => simp [TftLcd.call]
  | cons w ws ih =>
    have hcall : s.call (w :: ws) = (s.write w).call ws := rfl
    rw [hcall, ih]
    cases w with
    | cycle o st => rfl
    | once o st => simp [TftLcd.write, TftLcd.log, TftLcd.setOnceStatus, StatusWrite.act]

theorem call_eventStatus (s : TftLcd) (ws : List StatusWrite) (p : Nat) :
    ((s.call ws).once p).eventStatus = (lastWrite p ws).getD (s.once p).eventStatus := by
  induction ws generalizing s with
  | nil => rfl
  | cons w ws ih =>
    have hcall : s.call (w :: ws) = (s.write w).call ws := rfl
    rw [hcall, ih]
    cases w with
    | cycle o st => rfl
    | once o st =>
      rw [lastWrite]
      cases lastWrite p ws with
      | some st' => rfl
      | none =>
        by_cases hp : o = p
        · simp [TftLcd.write, TftLcd.log, TftLcd.setOnceStatus, hp]
        · simp [TftLcd.write, TftLcd.log, TftLcd.setOnceStatus, hp, Ne.symm hp]

/-- The requests a callback leaves: its last write decides. -/
theorem note_writes (u : Nat → Bool) (ws : List StatusWrite) (p : Nat) :
    run note u (ws.filterMap StatusWrite.act) p =
      match lastWrite p ws with
      | none => u p
      | some st => decide (st = .active) := by
  induction ws generalizing u with
  | nil => rfl
  | cons w ws ih =>
    cases w with
    | cycle o st => exact ih u
    | once o st =>
      rw [List.filterMap_cons_some (by rfl), run_cons, ih, lastWrite]
      cases lastWrite p ws with
      | some st' => rfl
      | none =>
        by_cases hp : o = p
        · simp [note, hp]
        · simp [note, hp, Ne.symm hp]

/-- Nothing that a callback does breaks the law. -/
theorem actLaw_writes (u : Nat → Bool) (ws : List StatusWrite) :
    AllSteps note ActLaw u (ws.filterMap StatusWrite.act) := by
  induction ws generalizing u with
  | nil => trivial
  | cons w ws ih =>
    cases w with
    | cycle o st => exact ih u
    | once o st =>
      rw [List.filterMap_cons_some (by rfl)]
      exact ⟨trivial, ih _⟩

/-! ## One slot -/

/-- The invariant between two slots: the law so far, and the unserved activations are those of the
active events. -/
structure DispatchInv (u₀ : Nat → Bool) (s : TftLcd) : Prop where
  law : TraceLaw u₀ s
  unserved_iff : ∀ o, unserved u₀ s o = true ↔ (s.once o).eventStatus = .active

variable {u₀ : Nat → Bool} {s : TftLcd}

/-- A callback keeps the invariant. -/
theorem dispatchInv_call (h : DispatchInv u₀ s) (ws : List StatusWrite) :
    DispatchInv u₀ (s.call ws) where
  law := by
    unfold TraceLaw
    rw [call_trace, allSteps_append]
    exact ⟨h.law, actLaw_writes _ ws⟩
  unserved_iff p := by
    have hp := h.unserved_iff p
    unfold unserved at hp ⊢
    rw [call_trace, run_append, note_writes, call_eventStatus]
    cases lastWrite p ws with
    | none => exact hp
    | some st => simp

/-- The slot's `OnFunc`, if it is run, does not leave its own event active by a write of its own. -/
def SlotOk (env : Env) (s : TftLcd) (i : Nat) : Prop :=
  ∀ o, s.onceEventQueue i = some o → (s.once o).eventStatus = .active →
    lastWrite o (env (.onFunc i) (s.once o).onFunc) ≠ some .active

/-- The dispatcher's own part of a slot: `OnFunc`, then `EVENT_STATE_INACTIVE`. -/
def serve (o : Nat) (ws : List StatusWrite) (s : TftLcd) : TftLcd :=
  let s := (s.log (.start o)).call ws
  (s.setOnceStatus o .inactive).log (.clear o (s.once o).eventStatus)

theorem serve_trace (o : Nat) (ws : List StatusWrite) (s : TftLcd) :
    (serve o ws s).trace = s.trace ++ (.start o :: (ws.filterMap StatusWrite.act ++
      [.clear o ((lastWrite o ws).getD (s.once o).eventStatus)])) := by
  simp only [serve, TftLcd.log, TftLcd.setOnceStatus]
  rw [call_trace, call_eventStatus]
  simp

theorem serve_eventStatus (o : Nat) (ws : List StatusWrite) (s : TftLcd) (p : Nat) :
    ((serve o ws s).once p).eventStatus =
      if p = o then .inactive else (lastWrite p ws).getD (s.once p).eventStatus := by
  by_cases hp : p = o
  · simp [serve, TftLcd.log, TftLcd.setOnceStatus, hp]
  · simp only [serve, TftLcd.log, TftLcd.setOnceStatus, hp, if_false]
    rw [Function.update_of_ne hp, call_eventStatus]

/-- **Serving an active event** keeps the law iff its `OnFunc` does not leave it active by a write
of its own. -/
theorem serve_law_iff (h : DispatchInv u₀ s) {o : Nat} (hact : (s.once o).eventStatus = .active)
    (ws : List StatusWrite) : TraceLaw u₀ (serve o ws s) ↔ lastWrite o ws ≠ some .active := by
  have hreq : run note u₀ s.trace o = true := (h.unserved_iff o).mpr hact
  have hlaw : AllSteps note ActLaw u₀ s.trace := h.law
  have hws := actLaw_writes (note (run note u₀ s.trace) (.start o)) ws
  unfold TraceLaw
  rw [serve_trace, allSteps_append, allSteps_cons, allSteps_append, hact]
  simp only [hlaw, hws, ActLaw, hreq, true_and, allSteps_cons, allSteps_nil, and_true]
  rw [note_writes]
  cases lastWrite o ws with
  | none => simp [note]
  | some st => simp

/-- Serving an active event whose `OnFunc` behaves keeps the invariant. -/
theorem dispatchInv_serve (h : DispatchInv u₀ s) {o : Nat} (hact : (s.once o).eventStatus = .active)
    {ws : List StatusWrite} (hok : lastWrite o ws ≠ some .active) :
    DispatchInv u₀ (serve o ws s) where
  law := (serve_law_iff h hact ws).mpr hok
  unserved_iff p := by
    have hp := h.unserved_iff p
    unfold unserved at hp ⊢
    -- the dispatcher's own act serves nothing, so the callback's writes decide
    have hrun : run note u₀ (serve o ws s).trace =
        run note (note (run note u₀ s.trace) (.start o)) (ws.filterMap StatusWrite.act) := by
      rw [serve_trace, run_append, run_cons, run_append, run_cons, run_nil]
      rfl
    rw [hrun, note_writes, serve_eventStatus]
    by_cases hpo : p = o
    · subst hpo
      cases hl : lastWrite p ws with
      | none => simp [note]
      | some st =>
        have hst : st ≠ .active := fun he => hok (he ▸ hl)
        simp [hst]
    · rw [if_neg hpo]
      cases lastWrite p ws with
      | none => simpa [note, hpo] using hp
      | some st => simp

/-- The slot is served, or left alone. -/
theorem onceSlot_eq (env : Env) (i : Nat) (s : TftLcd) :
    (onceSlot env i s = s ∧ ∀ o, s.onceEventQueue i = some o → (s.once o).eventStatus ≠ .active) ∨
    ∃ o ws, s.onceEventQueue i = some o ∧ (s.once o).eventStatus = .active ∧
      onceSlot env i s = (serve o (env (.onFunc i) (s.once o).onFunc) s).call ws := by
  unfold onceSlot
  cases hq : s.onceEventQueue i with
  | none => exact Or.inl ⟨rfl, fun o ho => absurd ho (by simp)⟩
  | some o =>
    by_cases hact : (s.once o).eventStatus = .active
    · let served := serve o (env (.onFunc i) (s.once o).onFunc) s
      exact Or.inr ⟨o, env (.onCbFunc i) (served.once o).onCbFunc, rfl, hact, if_pos hact⟩
    · refine Or.inl ⟨if_neg hact, fun p hp => ?_⟩
      rw [← Option.some.inj hp]
      exact hact

/-- The history only grows. -/
theorem onceSlot_trace_grows (env : Env) (i : Nat) (s : TftLcd) :
    s.trace <+: (onceSlot env i s).trace := by
  rcases onceSlot_eq env i s with ⟨heq, -⟩ | ⟨o, ws, -, -, heq⟩
  · exact ⟨[], by rw [heq, List.append_nil]⟩
  · rw [heq, call_trace, serve_trace, List.append_assoc]
    exact List.prefix_append _ _

/-- A longer history that obeys the law obeyed it before. -/
theorem TraceLaw.of_longer {s' : TftLcd} (h : TraceLaw u₀ s') (hp : s.trace <+: s'.trace) :
    TraceLaw u₀ s := by
  obtain ⟨more, hmore⟩ := hp
  unfold TraceLaw at h
  rw [← hmore, allSteps_append] at h
  exact h.1

/-- **One slot of the first loop** keeps the law iff it meets `SlotOk`, and then the invariant. -/
theorem onceSlot_spec (h : DispatchInv u₀ s) (env : Env) (i : Nat) :
    (TraceLaw u₀ (onceSlot env i s) → SlotOk env s i) ∧
      (SlotOk env s i → DispatchInv u₀ (onceSlot env i s)) := by
  rcases onceSlot_eq env i s with ⟨heq, hidle⟩ | ⟨o, ws, hq, hact, heq⟩
  · rw [heq]
    exact ⟨fun _ o ho hact => absurd hact (hidle o ho), fun _ => h⟩
  · rw [heq]
    constructor
    · intro hlaw p hp _
      have hserve : TraceLaw u₀ (serve o (env (.onFunc i) (s.once o).onFunc) s) :=
        hlaw.of_longer (by rw [call_trace]; exact List.prefix_append _ _)
      obtain rfl : o = p := Option.some.inj (hq.symm.trans hp)
      exact (serve_law_iff h hact _).mp hserve
    · intro hok
      exact dispatchInv_call (dispatchInv_serve h hact (hok o hq hact)) ws

/-! ## One pass -/

/-- A slot of the second loop is a callback, or nothing, on the once objects. -/
theorem cycleSlot_eq (env : Env) (i : Nat) (s : TftLcd) :
    ∃ cycle calls ws, cycleSlot env i s =
      ({ s with cycle := cycle, cycleCalls := calls } : TftLcd).call ws := by
  unfold cycleSlot
  cases s.cycleEventQueue i with
  | none => exact ⟨s.cycle, s.cycleCalls, [], rfl⟩
  | some o =>
    simp only
    split
    · unfold tftlcdCycleBaseOnFunc
      split
      · dsimp only
        split
        · exact ⟨_, _, _, rfl⟩
        · exact ⟨_, s.cycleCalls, [], rfl⟩
      · dsimp only
        split
        · exact ⟨s.cycle, _, _, rfl⟩
        · exact ⟨s.cycle, s.cycleCalls, [], rfl⟩
    · exact ⟨s.cycle, s.cycleCalls, [], rfl⟩

theorem cycleSlot_spec (h : DispatchInv u₀ s) (env : Env) (i : Nat) :
    DispatchInv u₀ (cycleSlot env i s) := by
  obtain ⟨cycle, calls, ws, heq⟩ := cycleSlot_eq env i s
  rw [heq]
  exact dispatchInv_call (s := { s with cycle := cycle, cycleCalls := calls })
    ⟨h.law, h.unserved_iff⟩ ws

theorem cycleSlot_trace_grows (env : Env) (i : Nat) (s : TftLcd) :
    s.trace <+: (cycleSlot env i s).trace := by
  obtain ⟨cycle, calls, ws, heq⟩ := cycleSlot_eq env i s
  rw [heq, call_trace]
  exact List.prefix_append _ _

/-- Over a loop of slots too the history only grows. -/
theorem slots_trace_grows {slot : TftLcd → Nat → TftLcd}
    (hslot : ∀ s i, s.trace <+: (slot s i).trace) (s : TftLcd) (is : List Nat) :
    s.trace <+: (run slot s is).trace := by
  induction is generalizing s with
  | nil => exact List.prefix_rfl
  | cons i is ih => exact (hslot s i).trans (ih (slot s i))

/-- **The first loop** keeps the law iff every slot meets `SlotOk`, and then the invariant. -/
theorem onceSlots_spec (h : DispatchInv u₀ s) (env : Env) (is : List Nat) :
    (TraceLaw u₀ (run (fun s i => onceSlot env i s) s is) →
      AllSteps (fun s i => onceSlot env i s) (SlotOk env) s is) ∧
    (AllSteps (fun s i => onceSlot env i s) (SlotOk env) s is →
      DispatchInv u₀ (run (fun s i => onceSlot env i s) s is)) := by
  constructor
  · intro hlaw
    induction is generalizing s with
    | nil => trivial
    | cons i is ih =>
      have hslot : TraceLaw u₀ (onceSlot env i s) :=
        hlaw.of_longer (slots_trace_grows (fun s i => onceSlot_trace_grows env i s) _ is)
      have hok := (onceSlot_spec h env i).1 hslot
      exact ⟨hok, ih ((onceSlot_spec h env i).2 hok) hlaw⟩
  · exact run_invariant (fun s i hs hok => (onceSlot_spec hs env i).2 hok) h

/-- In this pass no `OnFunc` that is run leaves its own event active. -/
def PassOk (env : Env) (s : TftLcd) : Prop :=
  AllSteps (fun s i => onceSlot env i s) (SlotOk env) s (List.range onceEventQueueNum)

/-- The second loop keeps the invariant. -/
theorem cycleSlots_spec (h : DispatchInv u₀ s) (env : Env) (is : List Nat) :
    DispatchInv u₀ (run (fun s i => cycleSlot env i s) s is) := by
  induction is generalizing s with
  | nil => exact h
  | cons i is ih => exact ih (cycleSlot_spec h env i)

/-- **One pass** keeps the law iff it meets `PassOk`, and then the invariant. -/
theorem eventProcess_spec (h : DispatchInv u₀ s) (env : Env) :
    (TraceLaw u₀ (tftlcdEventProcess env s) → PassOk env s) ∧
      (PassOk env s → DispatchInv u₀ (tftlcdEventProcess env s)) := by
  obtain ⟨hlaw, hinv⟩ := onceSlots_spec h env (List.range onceEventQueueNum)
  constructor
  · intro hpass
    refine hlaw (hpass.of_longer ?_)
    exact slots_trace_grows (fun s i => cycleSlot_trace_grows env i s) _
      (List.range cycleEventQueueNum)
  · intro hok
    have hcycles := cycleSlots_spec (hinv hok) env (List.range cycleEventQueueNum)
    exact ⟨hcycles.law, hcycles.unserved_iff⟩

/-! ## Runs -/

/-- A pass of the dispatcher, or an activation from outside. -/
inductive DispatchEvent where
  | pass (env : Env)
  | activate (o : Nat)

/-- One event. -/
def dispatchStep (s : TftLcd) : DispatchEvent → TftLcd
  | .pass env => tftlcdEventProcess env s
  | .activate o => s.write (.once o .active)

/-- After the event the history obeys the law, and every unserved activation is still pending: its
event is active. -/
def DispatchLaw (u₀ : Nat → Bool) (s : TftLcd) (e : DispatchEvent) : Prop :=
  TraceLaw u₀ (dispatchStep s e) ∧
    ∀ o, unserved u₀ (dispatchStep s e) o = true →
      ((dispatchStep s e).once o).eventStatus = .active

/-- In a pass, no `OnFunc` that is run leaves its own event active. -/
def DispatchOk (s : TftLcd) : DispatchEvent → Prop
  | .pass env => PassOk env s
  | .activate _ => True

theorem dispatchInv_step (e : DispatchEvent) (h : DispatchInv u₀ s) (hok : DispatchOk s e) :
    DispatchInv u₀ (dispatchStep s e) := by
  cases e with
  | pass env => exact (eventProcess_spec h env).2 hok
  | activate o => exact dispatchInv_call h [.once o .active]

theorem dispatchLaw_iff (e : DispatchEvent) (h : DispatchInv u₀ s) :
    DispatchLaw u₀ s e ↔ DispatchOk s e := by
  constructor
  · rintro ⟨hlaw, -⟩
    cases e with
    | pass env => exact (eventProcess_spec h env).1 hlaw
    | activate o => trivial
  · intro hok
    obtain ⟨hlaw, hun⟩ := dispatchInv_step e h hok
    exact ⟨hlaw, fun o => (hun o).mp⟩

/-- The queues as they are, with an empty history. -/
def dispatchStart (s₀ : TftLcd) : TftLcd := { s₀ with trace := [] }

theorem dispatchInv_start (s₀ : TftLcd) : DispatchInv (requests s₀) (dispatchStart s₀) where
  law := trivial
  unserved_iff o := by
    show requests s₀ o = true ↔ (s₀.once o).eventStatus = .active
    simp [requests]

/-- **Dispatch.** From any content of the queues and over every run of passes and outside
activations, with any callbacks: `OnFunc` is started only on an activation, the dispatcher never
clears an activation that no `OnFunc` has been started for, and an unserved activation stays
pending, throughout the run, iff in no pass an `OnFunc` that is run leaves `EVENT_STATE_ACTIVE` as
its last write to its own event. -/
theorem dispatch_run_iff (s₀ : TftLcd) (es : List DispatchEvent) :
    AllSteps dispatchStep (DispatchLaw (requests s₀)) (dispatchStart s₀) es ↔
      AllSteps dispatchStep DispatchOk (dispatchStart s₀) es :=
  allSteps_iff (fun _ e h hok => dispatchInv_step e h hok) (fun _ e h => dispatchLaw_iff e h)
    (dispatchInv_start s₀)

/-- One once event, object 7 in slot 2, not active. -/
def oneOnceEvent : TftLcd where
  cycleEventQueue _ := none
  onceEventQueue i := if i = 2 then some 7 else none
  cycle _ := ⟨0, .inactive, 0, 0, 0⟩
  once _ := ⟨3, .inactive, 0, 0⟩
  eventCycleCnt := 1
  trace := []
  cycleCalls := []

/-- An `OnFunc` that activates its own event again: the activation is lost. -/
theorem dispatch_run_own_activation_lost :
    ¬ AllSteps dispatchStep (DispatchLaw (requests oneOnceEvent)) (dispatchStart oneOnceEvent)
      [.activate 7, .pass fun site _ => match site with
        | .onFunc _ => [.once 7 .active]
        | _ => []] := by
  rintro ⟨-, ⟨-, hpending⟩, -⟩
  exact absurd (hpending 7 (by decide)) (by decide)

end Stm32F407.Lcd
