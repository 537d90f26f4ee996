import Mathlib.Algebra.Order.BigOperators.Group.List
import Stm32F407.Lwip.TimerRefine

/-!
# What one call of `sys_check_timeouts` does

A check reads the clock once and goes on while the head of the list is due by that time. Handlers
run inside it, so the list it works on changes under it.

* `check_serves_due`: when it returns, nothing that was due when it began is left, and everything
  that was has expired or was cancelled by a handler on the way.
* `check_calls_bounded`: it does return. No handler call can put off the end for ever: as long as
  nobody asks for a delay of 0, a check calls at most two handlers for each timeout that was due
  when it began, begins at most one round more than that, and returns with the last. The two is
  real: a cyclic timer that is late by exactly one interval is due again at the `now` of the check.
-/

namespace Stm32F407.Lwip.Timeouts

open Stm32F407.Lib

variable {a : Service}

/-- The check that began at `now` is under way. -/
def During (now : Nat) (a : Service) (_ : Event) : Prop := a.mode.started = some now

instance During.instDecidable (now : Nat) (a : Service) (e : Event) : Decidable (During now a e) :=
  inferInstanceAs (Decidable (a.mode.started = some now))

/-! ## Nothing due is left -/

theorem schedule_mem {due : Nat} {h : Handler} {x : Entry}
    (hx : x ∈ (a.schedule due h).queue) : x ∈ a.queue ∨ x = ⟨due, a.nextId, h⟩ := by
  unfold Service.schedule at hx
  split_ifs at hx
  · exact ((List.mem_orderedInsert _).mp hx).symm
  · exact Or.inl hx

theorem nextId_le_schedule (due : Nat) (h : Handler) (a : Service) :
    a.nextId ≤ (a.schedule due h).nextId := by
  unfold Service.schedule
  split_ifs
  · exact Nat.le_succ _
  · exact le_rfl

/-- Old entries stay as they are and new ones have new numbers. -/
def Grows (a b : Service) : Prop :=
  a.nextId ≤ b.nextId ∧ ∀ x ∈ b.queue, x ∈ a.queue ∨ a.nextId ≤ x.id

theorem Grows.refl (a : Service) : Grows a a := ⟨le_rfl, fun _ hx => Or.inl hx⟩

theorem Grows.trans {b c : Service} (hab : Grows a b) (hbc : Grows b c) : Grows a c := by
  refine ⟨hab.1.trans hbc.1, fun x hx => ?_⟩
  rcases hbc.2 x hx with hx | hx
  · exact hab.2 x hx
  · exact Or.inr (hab.1.trans hx)

theorem Grows.schedule (due : Nat) (h : Handler) (a : Service) : Grows a (a.schedule due h) := by
  refine ⟨nextId_le_schedule due h a, fun x hx => ?_⟩
  rcases schedule_mem hx with hx | rfl
  · exact Or.inl hx
  · exact Or.inr le_rfl

theorem Grows.finish (h : Handler) (a : Service) : Grows a (a.finish h) := by
  unfold Service.finish Service.again
  split
  · split_ifs
    · exact Grows.schedule _ _ a
    · exact Grows.schedule _ _ a
  · split_ifs
    · exact Grows.schedule _ _ a
    · exact Grows.refl a
  · exact Grows.refl a

theorem Grows.step {now : Nat} {e : Event} (hd : During now a e) : Grows a (a.step e) := by
  have hmode : a.mode ≠ .main := fun hm => by rw [During, hm] at hd; cases hd
  cases e with
  | tick ms => exact Grows.refl a
  | sysTimeout msecs h arg => exact Grows.schedule _ _ a
  | sysUntimeout h arg => exact ⟨le_rfl, fun x hx => Or.inl (List.eraseP_subset hx)⟩
  | tcpReg active =>
    show Grows a (a.tcpReg active)
    unfold Service.tcpReg
    split_ifs
    · exact Grows.schedule _ _ { a with pcbs := a.pcbs || active, active := true }
    · exact Grows.refl a
  | pcbsGone => exact Grows.refl a
  | sysRestartTimeouts =>
    rcases hm : a.mode with _ | now | ⟨now, h⟩ <;> simp only [Service.step, hm]
    · exact absurd hm hmode
    · exact Grows.refl a
    · exact Grows.refl a
  | sysCheckTimeouts =>
    rcases hm : a.mode with _ | now | ⟨now, h⟩ <;> simp only [Service.step, hm]
    · exact absurd hm hmode
    · exact Grows.refl a
    · exact Grows.refl a
  | round =>
    rcases hm : a.mode with _ | now | ⟨now, h⟩ <;> simp only [Service.step, hm]
    · exact Grows.refl a
    · obtain ⟨-, hr⟩ | ⟨x, rest, hq, -, hr⟩ := round_cases now a
      · rw [hr]
        exact Grows.refl a
      · rw [hr]
        exact ⟨le_rfl, fun y hy => Or.inl (hq ▸ List.mem_cons_of_mem x hy)⟩
    · exact Grows.refl a
  | handlerReturn =>
    rcases hm : a.mode with _ | now | ⟨now, h⟩ <;> simp only [Service.step, hm]
    · exact Grows.refl a
    · exact Grows.refl a
    · exact Grows.finish h a

/-- A check goes on, or it has returned with nothing due left. -/
def Settled (now : Nat) (a : Service) : Prop :=
  a.mode.started = some now ∨ a.mode = .main ∧ ∀ e ∈ a.queue, now < e.due

theorem Settled.step (hk : Kept a) {now : Nat} {e : Event} (hd : During now a e) :
    Settled now (a.step e) := by
  have hmode : a.mode.started = some now := hd
  have hframe : ∀ due h, (a.schedule due h).mode.started = some now := fun due h => by
    rw [schedule_mode]
    exact hmode
  cases e with
  | tick ms => exact Or.inl hmode
  | sysTimeout msecs h arg => exact Or.inl (hframe _ _)
  | sysUntimeout h arg => exact Or.inl hmode
  | tcpReg active =>
    refine Or.inl ?_
    show (a.tcpReg active).mode.started = some now
    unfold Service.tcpReg
    split_ifs
    · rw [schedule_mode]
      exact hmode
    · exact hmode
  | pcbsGone => exact Or.inl hmode
  | sysRestartTimeouts =>
    rcases hm : a.mode with _ | n | ⟨n, h⟩ <;> simp only [Service.step, hm]
    · rw [hm] at hmode
      cases hmode
    · exact Or.inl hmode
    · exact Or.inl hmode
  | sysCheckTimeouts =>
    rcases hm : a.mode with _ | n | ⟨n, h⟩ <;> simp only [Service.step, hm]
    · rw [hm] at hmode
      cases hmode
    · exact Or.inl hmode
    · exact Or.inl hmode
  | round =>
    rcases hm : a.mode with _ | n | ⟨n, h⟩ <;> simp only [Service.step, hm]
    · exact Or.inl hmode
    · obtain rfl : n = now := by rw [hm] at hmode; exact Option.some.inj hmode
      obtain ⟨hnone, hr⟩ | ⟨x, rest, hq, -, hr⟩ := round_cases n a
      · -- the head is due later, and so is the rest
        rw [hr]
        refine Or.inr ⟨rfl, fun e he => ?_⟩
        cases hq : a.queue with
        | nil => exact absurd (hq ▸ he) List.not_mem_nil
        | cons x rest => exact (hnone x (by rw [hq]; rfl)).trans_le (hk.head_due_le hq e he)
      · rw [hr]
        exact Or.inl (Mode.started_enter n x.h)
    · exact Or.inl hmode
  | handlerReturn =>
    rcases hm : a.mode with _ | n | ⟨n, h⟩ <;> simp only [Service.step, hm]
    · exact Or.inl hmode
    · exact Or.inl hmode
    · rw [hm] at hmode
      exact Or.inl hmode

/-- The numbers of the queue are different ones. -/
theorem Kept.eq_of_id (hk : Kept a) {x y : Entry} (hx : x ∈ a.queue) (hy : y ∈ a.queue)
    (h : x.id = y.id) : x = y := by
  have hnodup : (a.queue.map Entry.id).Nodup :=
    ((hk.account.nodup_iff.mpr List.nodup_range).of_append_left).of_append_left
  exact List.inj_on_of_nodup_map hnodup hx hy h

/-- What was due when a check began has expired or was cancelled when it returns. -/
theorem due_served {b : Service} (hk : Kept a) (hkb : Kept b) (hgrows : Grows a b) {now : Nat}
    (hlate : ∀ e ∈ b.queue, now < e.due) {e : Entry} (he : e ∈ a.queue) (hdue : e.due ≤ now) :
    e.id ∈ b.expired.map (fun x => x.1.id) ∨ e.id ∈ b.cancelled.map Entry.id := by
  have hid : e.id ∈ List.range b.nextId :=
    List.mem_range.mpr ((hk.numbered e he).trans_le hgrows.1)
  rcases List.mem_append.mp (hkb.account.mem_iff.mpr hid) with h | h
  · rcases List.mem_append.mp h with h | h
    · obtain ⟨x, hx, hxe⟩ := List.mem_map.mp h
      rcases hgrows.2 x hx with hxa | hnew
      · rw [hk.eq_of_id hxa he hxe] at hx
        exact absurd (hlate e hx) (Nat.not_lt.mpr hdue)
      · have := hk.numbered e he
        omega
    · exact Or.inl h
  · exact Or.inr h

theorem kept_run {es : List Event} (hk : Kept a) : Kept (run Service.step a es) :=
  run_of_inv (fun _ e hk => hk.step e) hk

/-- **A check serves everything that is due.** In a timely run, let a check begin from the main loop
and go through the events `fs`, its handlers' and the clock's among them, until it has returned.
Then no timeout of the list is due by the `now` of the check, and each one that was due by then when
it began has expired or was cancelled. -/
theorem check_serves_due (t : Nat) (es fs : List Event)
    (ht : AllSteps Service.step Timely (Service.init t) (es ++ .sysCheckTimeouts :: fs)) :
    let a := run Service.step (Service.init t) es
    let b := run Service.step (Service.init t) (es ++ .sysCheckTimeouts :: fs)
    let s := run Sys.step (Sys.init t) (es ++ .sysCheckTimeouts :: fs)
    a.mode = .main → AllSteps Service.step (During a.now) (a.step .sysCheckTimeouts) fs →
      s.mode = .main →
      s.nextTimeout = b.queue.map Entry.stored ∧ (∀ e ∈ b.queue, a.now < e.due) ∧
        s.expired = (b.expired.map fun x => x.1.stored) ∧
        ∀ e ∈ a.queue, e.due ≤ a.now →
          e.id ∈ b.expired.map (fun x => x.1.id) ∨ e.id ∈ b.cancelled.map Entry.id := by
  intro a b s hmain hduring hend
  obtain ⟨hkb, hwb, hrb⟩ : Together s b := run_together t ht
  have hka : Kept a := kept_run (Kept.init t)
  have hb : b = run Service.step (a.step .sysCheckTimeouts) fs := by
    show run _ _ _ = _
    rw [run_append, run_cons]
  have hentry : a.step .sysCheckTimeouts = { a with mode := .checking a.now } := by
    simp only [Service.step, hmain]
  -- along the check the queue only grows, and at its end nothing due is left
  have hinv : Kept b ∧ Grows a b ∧ Settled a.now b := by
    rw [hb]
    refine run_invariant (P := fun c => Kept c ∧ Grows a c ∧ Settled a.now c)
      (fun c e hc hd => ⟨hc.1.step e, hc.2.1.trans (Grows.step hd), Settled.step hc.1 hd⟩)
      ⟨hka.step _, ?_, ?_⟩ hduring
    · rw [hentry]
      exact Grows.refl a
    · rw [hentry]
      exact Or.inl rfl
  have hlate : ∀ e ∈ b.queue, a.now < e.due := by
    rcases hinv.2.2 with hstill | ⟨-, hlate⟩
    · have hbm := hrb.mode
      rw [hend] at hbm
      rcases hm : b.mode with _ | n | ⟨n, h⟩ <;> rw [hm] at hstill hbm <;> cases hstill <;>
        cases hbm
    · exact hlate
  exact ⟨hrb.nextTimeout, hlate, hrb.expired,
    fun e he hdue => due_served hka hkb hinv.2.1 hlate he hdue⟩

/-- Two timeouts are due, and the handler of the first cancels the second. -/
def cancelRun : List Event := [.sysTimeout 40 1 0, .sysTimeout 40 2 0, .tick 60]

theorem check_serves_due_cancel :
    (run Service.step (Service.init 0) (cancelRun ++ .sysCheckTimeouts ::
      [.round, .sysUntimeout 2 0, .tick 10, .handlerReturn, .round])).cancelled.map Entry.id = [6] ∧
    ∀ e ∈ (run Service.step (Service.init 0) (cancelRun ++ .sysCheckTimeouts ::
      [.round, .sysUntimeout 2 0, .tick 10, .handlerReturn, .round])).queue, 60 < e.due :=
  ⟨by decide, (check_serves_due 0 cancelRun
    [.round, .sysUntimeout 2 0, .tick 10, .handlerReturn, .round] (by decide) (by decide)
    (by decide) (by decide)).2.1⟩

/-! ## A check comes to an end -/

/-- How often an entry can still be served in a check that began at `now`. -/
def Entry.weight (now : Nat) (e : Entry) : Nat :=
  if now < e.due then 0
  else
    match e.h with
    | .lwipCyclicTimer _ => if e.due < now then 2 else 1
    | _ => 1

/-- What the handler that runs can still add: a cyclic timer that was late may be due again. -/
def Service.credit (now : Nat) (a : Service) : Nat :=
  match a.mode with
  | .handler _ (.lwipCyclicTimer _) => if a.due < now then 1 else 0
  | _ => 0

/-- How many handlers a check that began at `now` can still call. -/
def Service.potential (now : Nat) (a : Service) : Nat :=
  (a.queue.map (Entry.weight now)).sum + a.credit now

/-- Nobody schedules a timeout for now. -/
def NoZero : Event → Prop
  | .sysTimeout msecs _ _ => 0 < msecs.toNat
  | _ => True

instance NoZero.instDecidable : DecidablePred NoZero
  | .sysTimeout msecs _ _ => inferInstanceAs (Decidable (0 < msecs.toNat))
  | .tick _ => inferInstanceAs (Decidable True)
  | .sysUntimeout _ _ => inferInstanceAs (Decidable True)
  | .tcpReg _ => inferInstanceAs (Decidable True)
  | .pcbsGone => inferInstanceAs (Decidable True)
  | .sysRestartTimeouts => inferInstanceAs (Decidable True)
  | .sysCheckTimeouts => inferInstanceAs (Decidable True)
  | .round => inferInstanceAs (Decidable True)
  | .handlerReturn => inferInstanceAs (Decidable True)

theorem weight_le_two (now : Nat) (e : Entry) : e.weight now ≤ 2 := by
  unfold Entry.weight
  rcases e.h with c | _ | ⟨f, arg⟩
  · simp only
    split_ifs <;> decide
  · simp only
    split_ifs <;> decide
  · simp only
    split_ifs <;> decide

theorem weight_of_lt {now : Nat} {e : Entry} (h : now < e.due) : e.weight now = 0 := if_pos h

/-- The sum of the weights after a new entry. -/
theorem weights_schedule (now due : Nat) (h : Handler) (a : Service) :
    ((a.schedule due h).queue.map (Entry.weight now)).sum ≤
      (a.queue.map (Entry.weight now)).sum + Entry.weight now ⟨due, a.nextId, h⟩ := by
  unfold Service.schedule
  split_ifs
  · have hperm := (List.perm_orderedInsert (fun x y : Entry => x.due < y.due)
      ⟨due, a.nextId, h⟩ a.queue).map (Entry.weight now)
    rw [hperm.sum_eq, List.map_cons, List.sum_cons, Nat.add_comm]
  · exact Nat.le_add_right _ _

/-- An entry due after the `now` of the check adds nothing. -/
theorem potential_schedule {now due : Nat} (hdue : now < due) (h : Handler) (a : Service) :
    (a.schedule due h).potential now ≤ a.potential now := by
  have hsum := weights_schedule now due h a
  rw [weight_of_lt hdue] at hsum
  have hcredit : (a.schedule due h).credit now = a.credit now := by
    obtain ⟨-, hd, -, -, hm, -⟩ := schedule_frame due h a
    unfold Service.credit
    rw [hd, hm]
  unfold Service.potential
  omega

theorem credit_enter (now : Nat) (x : Entry) (h : x.due ≤ now) (b : Service)
    (hm : b.mode = .enter now x.h) (hd : b.due = x.due) : b.credit now + 1 = x.weight now := by
  unfold Service.credit Entry.weight
  rw [hm, hd, if_neg (Nat.not_lt.mpr h)]
  rcases hh : x.h with c | _ | ⟨f, arg⟩
  · show (if x.due < now then 1 else 0) + 1 = if x.due < now then 2 else 1
    split_ifs <;> rfl
  · rfl
  · have henter : Mode.enter now (.other f arg) = .checking now ∨
        Mode.enter now (.other f arg) = .handler now (.other f arg) := by
      unfold Mode.enter
      split
      · exact Or.inl rfl
      · exact Or.inr rfl
    rcases henter with he | he <;> rw [he]

theorem intervalMs_pos (cyclic : CyclicTimer) : 0 < cyclic.intervalMs := by
  cases cyclic <;> decide

/-- What a handler leaves behind is paid for by its credit. -/
theorem weights_finish {now n : Nat} {h : Handler} (hnow : now ≤ a.now)
    (hm : a.mode = .handler n h) :
    ((a.finish h).queue.map (Entry.weight now)).sum ≤ a.potential now := by
  have hlater : ∀ due g, now < due →
      ((a.schedule due g).queue.map (Entry.weight now)).sum ≤ a.potential now := by
    intro due g hdue
    have hsum := weights_schedule now due g a
    rw [weight_of_lt hdue] at hsum
    exact hsum.trans (Nat.add_le_add_left (Nat.zero_le _) _)
  unfold Service.finish
  split
  · rename_i cyclic
    have hpos := intervalMs_pos cyclic
    unfold Service.again
    split_ifs with hover
    · exact hlater _ _ (by omega)
    · rcases Nat.lt_or_ge now (a.due + cyclic.intervalMs) with hlt | hge
      · exact hlater _ _ hlt
      · -- due again at the `now` of the check: the entry was late, so the credit is there
        have hcredit : a.credit now = 1 := by
          unfold Service.credit
          rw [hm]
          exact if_pos (by omega)
        have hweight : Entry.weight now
            ⟨a.due + cyclic.intervalMs, a.nextId, .lwipCyclicTimer cyclic⟩ = 1 := by
          unfold Entry.weight
          simp only
          rw [if_neg (by omega), if_neg (by omega)]
        have hsum := weights_schedule now (a.due + cyclic.intervalMs) (.lwipCyclicTimer cyclic) a
        rw [hweight, ← hcredit] at hsum
        exact hsum
  · split_ifs
    · exact hlater _ _ (Nat.lt_of_le_of_lt hnow (Nat.lt_add_of_pos_right (by decide)))
    · exact Nat.le_add_right _ _
  · exact Nat.le_add_right _ _

/-- **A step of a check uses up what it calls.** -/
theorem potential_step (hk : Kept a) {now : Nat} {e : Event} (hd : During now a e) (hz : NoZero e) :
    (a.step e).expired.length + (a.step e).potential now ≤ a.expired.length + a.potential now := by
  have hmode : a.mode.started = some now := hd
  have hnow : now ≤ a.now := by
    have := hk.started
    rwa [Service.start, hmode] at this
  have hsched : ∀ (b : Service) due h, b.expired = a.expired → b.potential now ≤ a.potential now →
      now < due → (b.schedule due h).expired.length + (b.schedule due h).potential now ≤
        a.expired.length + a.potential now := by
    intro b due h he hp hdue
    rw [(schedule_frame due h b).2.2.2.2.2.1, he]
    exact Nat.add_le_add_left ((potential_schedule hdue h b).trans hp) _
  cases e with
  | tick ms => exact le_rfl
  | sysTimeout msecs h arg =>
    exact hsched a _ _ rfl le_rfl (Nat.lt_of_le_of_lt hnow (Nat.lt_add_of_pos_right hz))
  | sysUntimeout h arg =>
    refine Nat.add_le_add_left (Nat.add_le_add_right ?_ _) _
    exact (List.eraseP_sublist.map (Entry.weight now)).sum_le_sum fun _ _ => Nat.zero_le _
  | tcpReg active =>
    show (a.tcpReg active).expired.length + (a.tcpReg active).potential now ≤ _
    unfold Service.tcpReg
    split_ifs
    · exact hsched { a with pcbs := a.pcbs || active, active := true } _ _ rfl le_rfl
        (Nat.lt_of_le_of_lt hnow (Nat.lt_add_of_pos_right (by decide)))
    · exact le_rfl
  | pcbsGone => exact le_rfl
  | sysRestartTimeouts =>
    rcases hm : a.mode with _ | n | ⟨n, h⟩ <;> simp only [Service.step, hm]
    · rw [hm] at hmode
      cases hmode
    · exact le_rfl
    · exact le_rfl
  | sysCheckTimeouts =>
    rcases hm : a.mode with _ | n | ⟨n, h⟩ <;> simp only [Service.step, hm]
    · rw [hm] at hmode
      cases hmode
    · exact le_rfl
    · exact le_rfl
  | round =>
    rcases hm : a.mode with _ | n | ⟨n, h⟩ <;> simp only [Service.step, hm]
    · exact le_rfl
    · obtain rfl : n = now := by rw [hm] at hmode; exact Option.some.inj hmode
      obtain ⟨-, hr⟩ | ⟨x, rest, hq, hdue, hr⟩ := round_cases n a
      · rw [hr]
        exact Nat.add_le_add_left (Nat.add_le_add_left (Nat.zero_le _) _) _
      · -- the weight of the entry pays for its call and for what its handler may add
        rw [hr]
        have hcredit := credit_enter n x hdue { a with
          queue := rest, due := x.due, expired := a.expired ++ [(x, a.now)],
          mode := .enter n x.h } rfl rfl
        have hsum : (a.queue.map (Entry.weight n)).sum =
            x.weight n + (rest.map (Entry.weight n)).sum := by
          rw [hq, List.map_cons, List.sum_cons]
        simp only [Service.potential, List.length_append, List.length_singleton] at hcredit ⊢
        omega
    · exact le_rfl
  | handlerReturn =>
    rcases hm : a.mode with _ | n | ⟨n, h⟩ <;> simp only [Service.step, hm]
    · exact le_rfl
    · exact le_rfl
    · rw [(finish_frame h a).2.2.1]
      refine Nat.add_le_add_left ?_ _
      exact weights_finish hnow hm

/-- Only what is due has a weight, and that at most 2. -/
theorem weights_le (now : Nat) (l : List Entry) :
    (l.map (Entry.weight now)).sum ≤ 2 * (l.filter fun e => e.due ≤ now).length := by
  induction l with
  | nil => exact le_rfl
  | cons e l ih =>
    rw [List.map_cons, List.sum_cons, List.filter_cons]
    by_cases hdue : e.due ≤ now
    · have := weight_le_two now e
      rw [if_pos (by simpa using hdue), List.length_cons]
      omega
    · rw [if_neg (by simpa using hdue), weight_of_lt (Nat.lt_of_not_le hdue), Nat.zero_add]
      exact ih

/-! ### The rounds of the loop -/

/-- Whether the event begins a round of the loop. -/
def Mode.begins {τ : Type} : Mode τ → Event → Nat
  | .checking _, .round => 1
  | _, _ => 0

theorem begins_eq_zero {τ : Type} {m : Mode τ} {e : Event}
    (h : ∀ n, m = .checking n → e ≠ .round) : m.begins e = 0 := by
  cases m with
  | checking n =>
    cases e with
    | round => exact absurd rfl (h n rfl)
    | _ => rfl
  | _ => rfl

/-- The rounds of `sys_check_timeouts` begun along the events. -/
def Sys.rounds : Sys → List Event → Nat
  | _, [] => 0
  | s, e :: es => s.mode.begins e + (s.step e).rounds es

/-- The rounds begun along the events, in the service. -/
def Service.rounds : Service → List Event → Nat
  | _, [] => 0
  | a, e :: es => a.mode.begins e + (a.step e).rounds es

/-- `n` more rounds, each with the return of its handler. -/
def moreRounds (n : Nat) : List Event := (List.replicate n [Event.round, .handlerReturn]).flatten

theorem begins_dial (m : Mode Nat) (e : Event) : m.dial.begins e = m.begins e := by
  cases m <;> cases e <;> rfl

theorem Together.step {s : Sys} {e : Event} (h : Together s a) (ht : Timely a e) :
    Together (s.step e) (a.step e) :=
  ⟨h.kept.step e, h.window.step h.kept ht, h.refines.step h.window h.kept ht⟩

theorem Together.rounds_eq {s : Sys} {es : List Event} (h : Together s a)
    (ht : AllSteps Service.step Timely a es) : s.rounds es = a.rounds es := by
  induction es generalizing s a with
  | nil => rfl
  | cons e es ih =>
    rw [Sys.rounds, Service.rounds, h.refines.mode, begins_dial, ih (h.step ht.1) ht.2]

theorem Together.run {s : Sys} {es : List Event} (h : Together s a)
    (ht : AllSteps Service.step Timely a es) :
    Together (Lib.run Sys.step s es) (Lib.run Service.step a es) := by
  induction es generalizing s a with
  | nil => exact h
  | cons e es ih => exact ih (h.step ht.1) ht.2

theorem timely_moreRounds (a : Service) (n : Nat) :
    AllSteps Service.step Timely a (moreRounds n) := by
  induction n generalizing a with
  | zero => exact allSteps_nil a
  | succ n ih => exact ⟨trivial, trivial, ih _⟩

/-- A handler that returns goes back to the loop. -/
theorem handlerReturn_mode {now : Nat} (h : a.mode.started = some now) :
    (a.step .handlerReturn).mode = .checking now := by
  rcases hm : a.mode with _ | n | ⟨n, g⟩ <;> rw [hm] at h <;> cases h <;>
    simp only [Service.step, hm]

theorem expired_le_step (a : Service) (e : Event) : a.expired.length ≤ (a.step e).expired.length := by
  have hsched : ∀ (b : Service) due h, b.expired = a.expired →
      a.expired.length ≤ (b.schedule due h).expired.length := fun b due h he => by
    rw [(schedule_frame due h b).2.2.2.2.2.1, he]
  cases e with
  | tick ms => exact le_rfl
  | sysTimeout msecs h arg => exact hsched a _ _ rfl
  | sysUntimeout h arg => exact le_rfl
  | tcpReg active =>
    show _ ≤ (a.tcpReg active).expired.length
    unfold Service.tcpReg
    split_ifs
    · exact hsched _ _ _ rfl
    · exact le_rfl
  | pcbsGone => exact le_rfl
  | sysRestartTimeouts =>
    rcases hm : a.mode with _ | n | ⟨n, h⟩ <;> simp only [Service.step, hm]
    · unfold Service.restart
      split <;> exact le_rfl
    · exact le_rfl
    · exact le_rfl
  | sysCheckTimeouts =>
    rcases hm : a.mode with _ | n | ⟨n, h⟩ <;> simp only [Service.step, hm] <;> exact le_rfl
  | round =>
    rcases hm : a.mode with _ | n | ⟨n, h⟩ <;> simp only [Service.step, hm]
    · exact le_rfl
    · obtain ⟨-, hr⟩ | ⟨x, rest, -, -, hr⟩ := round_cases n a
      · rw [hr]
      · rw [hr]
        simp
    · exact le_rfl
  | handlerReturn =>
    rcases hm : a.mode with _ | n | ⟨n, h⟩ <;> simp only [Service.step, hm]
    · exact le_rfl
    · exact le_rfl
    · rw [(finish_frame h a).2.2.1]

/-- A round takes a timeout off the list, or it is the last one. -/
theorem begins_step (a : Service) (e : Event) :
    a.mode.begins e + a.expired.length ≤ (a.step e).expired.length ∨
      (a.step e).mode = .main ∧
        a.mode.begins e + a.expired.length ≤ (a.step e).expired.length + 1 := by
  by_cases hround : (∃ n, a.mode = .checking n) ∧ e = .round
  · obtain ⟨⟨n, hm⟩, rfl⟩ := hround
    have hstep : a.step .round = a.round n := by simp only [Service.step, hm]
    have hone : a.mode.begins .round = 1 := by rw [hm]; rfl
    rw [hstep, hone]
    obtain ⟨-, hr⟩ | ⟨x, rest, -, -, hr⟩ := round_cases n a
    · rw [hr]
      exact Or.inr ⟨rfl, (Nat.add_comm _ _).le⟩
    · rw [hr]
      exact Or.inl (by simp [Nat.add_comm])
  · have hzero : a.mode.begins e = 0 := begins_eq_zero fun n hm he => hround ⟨⟨n, hm⟩, he⟩
    rw [hzero, Nat.zero_add]
    exact Or.inl (expired_le_step a e)

/-- Along a check the rounds are paid for by the timeouts taken off the list, but for the last. -/
theorem rounds_le {now : Nat} {es : List Event} (hd : AllSteps Service.step (During now) a es) :
    a.rounds es + a.expired.length ≤ (run Service.step a es).expired.length + 1 ∧
      ((run Service.step a es).mode ≠ .main →
        a.rounds es + a.expired.length ≤ (run Service.step a es).expired.length) := by
  induction es generalizing a with
  | nil => exact ⟨by simp [Service.rounds], fun _ => by simp [Service.rounds]⟩
  | cons e es ih =>
    rw [Service.rounds, run_cons]
    rcases begins_step a e with hstep | ⟨hmain, hstep⟩
    · obtain ⟨h1, h2⟩ := ih hd.2
      exact ⟨by omega, fun hm => by have := h2 hm; omega⟩
    · -- nothing of the check comes after its last round
      cases es with
      | nil => exact ⟨by simpa [Service.rounds] using hstep, fun hm => absurd hmain hm⟩
      | cons e' es =>
        have := hd.2.1
        rw [During, hmain] at this
        cases this

/-- From the head of the loop, as many rounds as can still be paid for end the check. -/
theorem check_returns (hk : Kept a) {now : Nat} (hm : a.mode = .checking now) :
    ∃ n, n ≤ a.potential now + 1 ∧ (run Service.step a (moreRounds n)).mode = .main := by
  generalize hp : a.potential now = p
  induction p using Nat.strong_induction_on generalizing a with
  | h p ih =>
    have hround : a.step .round = a.round now := by simp only [Service.step, hm]
    obtain ⟨-, hr⟩ | ⟨x, rest, -, -, hr⟩ := round_cases now a
    · refine ⟨1, Nat.le_add_left _ _, ?_⟩
      show ((a.step .round).step .handlerReturn).mode = .main
      rw [hround, hr]
      rfl
    · -- a handler runs and returns, and the rest of the check is shorter
      have hstart : (a.step .round).mode.started = some now := by
        rw [hround, hr]
        exact Mode.started_enter now x.h
      have hlen : (a.step .round).expired.length = a.expired.length + 1 := by
        rw [hround, hr]
        simp
      have hd : During now a .round := by rw [During, hm]; rfl
      have hpot := potential_step hk hd trivial
      have hpot' := potential_step (hk.step .round) (e := .handlerReturn) hstart trivial
      have hle := expired_le_step (a.step .round) .handlerReturn
      have hm' := handlerReturn_mode hstart
      obtain ⟨n, hn, hmain⟩ := ih _ (by omega) ((hk.step .round).step .handlerReturn) hm' rfl
      exact ⟨n + 1, by omega, hmain⟩

/-- **A check ends.** In a timely run, however long a check has gone on and whatever its handlers
did, as long as nobody asked for a delay of 0:

* it has taken at most two timeouts off the list for each one that was due when it began, so never
  more than twenty;
* it has begun at most one round more than that, and with that one it has returned;
* so many more rounds as are missing from that bound, with the returns of their handlers, take it to
  its return. -/
theorem check_calls_bounded (t : Nat) (es fs : List Event)
    (ht : AllSteps Service.step Timely (Service.init t) (es ++ .sysCheckTimeouts :: fs)) :
    let a := run Service.step (Service.init t) es
    let c := run Sys.step (Sys.init t) (es ++ [.sysCheckTimeouts])
    let s := run Sys.step (Sys.init t) (es ++ .sysCheckTimeouts :: fs)
    let due := (a.queue.filter fun e => e.due ≤ a.now).length
    a.mode = .main → AllSteps Service.step (During a.now) (a.step .sysCheckTimeouts) fs →
      (∀ e ∈ fs, NoZero e) →
      s.expired.length ≤ a.expired.length + 2 * due ∧
        s.expired.length ≤ a.expired.length + 2 * mempNumSysTimeout ∧
        c.rounds fs ≤ 2 * due + 1 ∧ (c.rounds fs = 2 * due + 1 → s.mode = .main) ∧
        ∃ n, c.rounds fs + n ≤ 2 * due + 1 ∧
          (run Sys.step s (.handlerReturn :: moreRounds n)).mode = .main := by
  intro a c s due hmain hduring hnz
  have hka : Kept a := kept_run (Kept.init t)
  have hentry : a.step .sysCheckTimeouts = { a with mode := .checking a.now } := by
    simp only [Service.step, hmain]
  obtain ⟨b, hb⟩ : ∃ b, b = run Service.step (a.step .sysCheckTimeouts) fs := ⟨_, rfl⟩
  have hsplit : es ++ .sysCheckTimeouts :: fs = es ++ [.sysCheckTimeouts] ++ fs := by simp
  have hbrun : run Service.step (Service.init t) (es ++ .sysCheckTimeouts :: fs) = b := by
    rw [run_append, run_cons, hb]
  have hsb : Together s b := by
    rw [← hbrun]
    exact run_together t ht
  have hac : run Service.step (Service.init t) (es ++ [.sysCheckTimeouts]) =
      a.step .sysCheckTimeouts := by rw [run_append, run_cons, run_nil]
  have hc : Together c (a.step .sysCheckTimeouts) := by
    rw [hsplit] at ht
    have := run_together t ((allSteps_append _ _ _).mp ht).1
    rwa [hac] at this
  have hs : s.expired.length = b.expired.length := by
    rw [hsb.refines.expired, List.length_map]
  -- what has been called and what can still be called, together, never grow
  have hstep : ∀ c e, (Kept c ∧ c.expired.length + c.potential a.now ≤
      a.expired.length + (a.queue.map (Entry.weight a.now)).sum) →
      (During a.now c e ∧ NoZero e) →
      (Kept (c.step e) ∧ (c.step e).expired.length + (c.step e).potential a.now ≤
        a.expired.length + (a.queue.map (Entry.weight a.now)).sum) :=
    fun c e hc hok => ⟨hc.1.step e, (potential_step hc.1 hok.1 hok.2).trans hc.2⟩
  have hstart : (a.step .sysCheckTimeouts).expired.length +
      (a.step .sysCheckTimeouts).potential a.now ≤
        a.expired.length + (a.queue.map (Entry.weight a.now)).sum := by
    rw [hentry]
    exact le_rfl
  have hbound := run_invariant hstep ⟨hka.step .sysCheckTimeouts, hstart⟩
    (allSteps_and.mpr ⟨hduring, allSteps_event.mpr hnz⟩)
  rw [← hb] at hbound
  have hdue : (a.queue.map (Entry.weight a.now)).sum ≤ 2 * due := weights_le a.now a.queue
  have hlen := (List.length_filter_le (fun e => decide (e.due ≤ a.now)) a.queue).trans hka.full
  have hrounds : c.rounds fs = (a.step .sysCheckTimeouts).rounds fs := by
    rw [hsplit, allSteps_append] at ht
    have ht' := ht.2
    rw [hac] at ht'
    exact hc.rounds_eq ht'
  obtain ⟨hall, hon⟩ := rounds_le hduring
  have hexp : (a.step .sysCheckTimeouts).expired = a.expired := by rw [hentry]
  rw [← hrounds, ← hb, hexp] at hall hon
  have hpot := hbound.2
  have hmode : s.mode = .main ↔ b.mode = .main := by
    rw [hsb.refines.mode]
    cases b.mode <;> simp [Mode.dial]
  refine ⟨by omega, by omega, by omega, fun hmax => ?_, ?_⟩
  · by_contra hne
    have := hon fun hbm => hne (hmode.mpr hbm)
    omega
  · -- the handler that runs returns, and the rest is the loop's own
    have hend : ∀ n, (run Service.step (b.step .handlerReturn) (moreRounds n)).mode = .main →
        (run Sys.step s (.handlerReturn :: moreRounds n)).mode = .main := by
      intro n hn
      have htogether := (hsb.step (e := .handlerReturn) trivial).run
        (timely_moreRounds (b.step .handlerReturn) n)
      rw [run_cons, htogether.refines.mode, hn]
      rfl
    have hsettled : Kept b ∧ Settled a.now b := by
      rw [hb]
      refine run_invariant (P := fun c => Kept c ∧ Settled a.now c)
        (fun c e hc hd => ⟨hc.1.step e, Settled.step hc.1 hd⟩) ⟨hka.step _, ?_⟩ hduring
      rw [hentry]
      exact Or.inl rfl
    rcases hsettled.2 with hstill | ⟨hbm, -⟩
    · have hpot' := potential_step hbound.1 (e := .handlerReturn) hstill trivial
      have hle := expired_le_step b .handlerReturn
      obtain ⟨n, hn, hmain'⟩ := check_returns (hbound.1.step .handlerReturn)
        (handlerReturn_mode hstill)
      have hne : b.mode ≠ .main := fun hbm => by
        rw [hbm] at hstill
        cases hstill
      have := hon hne
      exact ⟨n, by omega, hend n hmain'⟩
    · refine ⟨0, by omega, hend 0 ?_⟩
      show (b.step .handlerReturn).mode = .main
      simp only [Service.step, hbm]

/-- A cyclic timer that is late by its interval is served twice, and the third round is the last;
after the first round the check is still on, and two more rounds end it. -/
theorem check_calls_bounded_late :
    (run Sys.step (Sys.init 0) ([.tick 200] ++ .sysCheckTimeouts ::
      [.round, .handlerReturn, .round, .handlerReturn, .round])).expired.length ≤ 2 ∧
    (run Sys.step (Sys.init 0) ([.tick 200] ++ .sysCheckTimeouts ::
      [.round, .handlerReturn, .round, .handlerReturn, .round])).mode = .main ∧
    ∃ n, 1 + n ≤ 3 ∧
      (run Sys.step (run Sys.step (Sys.init 0)
        ([.tick 200] ++ .sysCheckTimeouts :: [.round, .tick 5]))
        (.handlerReturn :: moreRounds n)).mode = .main := by
  obtain ⟨hexp, -, -, hmain, -⟩ := check_calls_bounded 0 [.tick 200]
    [.round, .handlerReturn, .round, .handlerReturn, .round] (by decide) (by decide) (by decide)
    (by decide)
  obtain ⟨-, -, -, -, n, hn, hend⟩ := check_calls_bounded 0 [.tick 200] [.round, .tick 5] (by decide)
    (by decide) (by decide) (by decide)
  exact ⟨hexp, hmain (by decide), n, hn, hend⟩

end Stm32F407.Lwip.Timeouts
