import Stm32F407.Lwip.Timeouts

/-!
# What the timeout list is for: a timer service

The service counts time without bound. It holds at most `MEMP_NUM_SYS_TIMEOUT` entries in the order
of their due times, equal ones in the order they were scheduled in (`Entry.Before`), and it keeps a
record of what it did: every entry has a number, and is later expired, cancelled or still waiting.

`TimerRefine.lean` shows that `timeouts.c` is this service on a 32-bit dial, as long as the main loop
keeps up. Here is what the service itself keeps, whatever happens around it (`Kept`).
-/

namespace Stm32F407.Lwip.Timeouts

open Stm32F407.Lib

/-- An entry of the service: when it is due, its number, and the handler. -/
structure Entry where
  due : Nat
  id : Nat
  h : Handler
deriving DecidableEq, Repr

/-- The order of service: by due time, then by number. -/
def Entry.Before (x y : Entry) : Prop := x.due < y.due ∨ x.due = y.due ∧ x.id < y.id

/-- The service. `due` is the due time of the entry whose handler runs, and `expired` says of each
expired entry when it was taken off the queue. -/
structure Service where
  now : Nat
  queue : List Entry
  due : Nat
  active : Bool
  pcbs : Bool
  mode : Mode Nat
  expired : List (Entry × Nat)
  cancelled : List Entry
  nextId : Nat

/-- A new entry, unless the queue is full. -/
def Service.schedule (due : Nat) (h : Handler) (a : Service) : Service :=
  if a.queue.length < mempNumSysTimeout then
    { a with
      queue := a.queue.orderedInsert (fun x y => x.due < y.due) ⟨due, a.nextId, h⟩
      nextId := a.nextId + 1 }
  else a

/-- The first entry of the handler leaves the queue. -/
def Service.cancel (h : Handler) (a : Service) : Service :=
  { a with
    queue := a.queue.eraseP fun e => e.h == h
    cancelled := a.cancelled ++ (a.queue.find? fun e => e.h == h).toList }

/-- The next run of a cyclic timer: one interval after it was due, or after now when that is over
already. -/
def Service.again (cyclic : CyclicTimer) (a : Service) : Service :=
  if a.due + cyclic.intervalMs < a.now then
    a.schedule (a.now + cyclic.intervalMs) (.lwipCyclicTimer cyclic)
  else a.schedule (a.due + cyclic.intervalMs) (.lwipCyclicTimer cyclic)

/-- The TCP timer is started when there are connections and it is off. -/
def Service.tcpReg (active : Bool) (a : Service) : Service :=
  if a.active = false ∧ (a.pcbs || active) = true then
    { a with pcbs := a.pcbs || active, active := true }.schedule (a.now + tcpTmrInterval)
      .tcpipTcpTimer
  else { a with pcbs := a.pcbs || active }

/-- All entries move by the same time, so that the first is due now. -/
def Service.restart (a : Service) : Service :=
  match a.queue with
  | [] => a
  | x :: _ => { a with queue := a.queue.map fun e => { e with due := e.due - x.due + a.now } }

/-- One round of a check that began at `now`. -/
def Service.round (now : Nat) (a : Service) : Service :=
  match a.queue with
  | [] => { a with mode := .main }
  | x :: rest =>
    if now < x.due then { a with mode := .main }
    else
      { a with
        queue := rest
        due := x.due
        expired := a.expired ++ [(x, a.now)]
        mode := .enter now x.h }

/-- What a handler does at its end. -/
def Service.finish (h : Handler) (a : Service) : Service :=
  match h with
  | .lwipCyclicTimer cyclic => a.again cyclic
  | .tcpipTcpTimer =>
    if a.pcbs then a.schedule (a.now + tcpTmrInterval) .tcpipTcpTimer
    else { a with active := false }
  | .other _ _ => a

/-- The service under the events of the list. -/
def Service.step (a : Service) : Event → Service
  | .tick ms => { a with now := a.now + ms }
  | .sysTimeout msecs h arg => a.schedule (a.now + msecs.toNat) (.other h arg)
  | .sysUntimeout h arg => a.cancel (.other h arg)
  | .tcpReg active => a.tcpReg active
  | .pcbsGone => { a with pcbs := false }
  | .sysRestartTimeouts =>
    match a.mode with
    | .main => a.restart
    | _ => a
  | .sysCheckTimeouts =>
    match a.mode with
    | .main => { a with mode := .checking a.now }
    | _ => a
  | .round =>
    match a.mode with
    | .checking now => a.round now
    | _ => a
  | .handlerReturn =>
    match a.mode with
    | .handler now h => { a.finish h with mode := .checking now }
    | _ => a

/-- The service at time `t`, with the cyclic timers scheduled. -/
def Service.init (t : Nat) : Service :=
  lwipCyclicTimers.foldl
    (fun a cyclic => a.schedule (a.now + cyclic.intervalMs) (.lwipCyclicTimer cyclic))
    ⟨t, [], 0, false, false, .main, [], [], 0⟩

/-! ## What the service keeps -/

/-- When the check under way began; now, outside one. -/
def Service.start (a : Service) : Nat := a.mode.started.getD a.now

/-- The invariant of the service: the queue is in the order of service, what has expired was due
and is in the order of the due times, and every number is in exactly one place. -/
structure Kept (a : Service) : Prop where
  sorted : a.queue.Pairwise Entry.Before
  numbered : ∀ e ∈ a.queue, e.id < a.nextId
  full : a.queue.length ≤ mempNumSysTimeout
  served : ∀ x ∈ a.expired, x.1.due ≤ x.2 ∧ x.2 ≤ a.now
  ordered : (a.expired.map fun x => x.1.due).Pairwise (· ≤ ·)
  behind : ∀ x ∈ a.expired, ∀ e ∈ a.queue, x.1.due ≤ e.due
  started : a.start ≤ a.now
  account : (a.queue.map Entry.id ++ a.expired.map (fun x => x.1.id) ++
    a.cancelled.map Entry.id).Perm (List.range a.nextId)

theorem Entry.Before.trans {x y z : Entry} (hxy : x.Before y) (hyz : y.Before z) : x.Before z := by
  unfold Entry.Before at *
  omega

theorem Entry.Before.due_le {x y : Entry} (h : x.Before y) : x.due ≤ y.due := by
  rcases h with h | ⟨h, -⟩
  · exact h.le
  · exact h.le

theorem Kept.head_due_le {a : Service} (hk : Kept a) {x : Entry} {rest : List Entry}
    (hq : a.queue = x :: rest) : ∀ e ∈ a.queue, x.due ≤ e.due := by
  intro e he
  have hs := hk.sorted
  rw [hq] at he hs
  rcases List.mem_cons.mp he with rfl | he
  · exact le_rfl
  · exact ((List.pairwise_cons.mp hs).1 e he).due_le

/-- `schedule` changes nothing but the queue and the numbers. -/
theorem schedule_frame (due : Nat) (h : Handler) (a : Service) :
    (a.schedule due h).now = a.now ∧ (a.schedule due h).due = a.due ∧
      (a.schedule due h).active = a.active ∧ (a.schedule due h).pcbs = a.pcbs ∧
      (a.schedule due h).mode = a.mode ∧ (a.schedule due h).expired = a.expired ∧
      (a.schedule due h).cancelled = a.cancelled := by
  unfold Service.schedule
  split_ifs
  · exact ⟨rfl, rfl, rfl, rfl, rfl, rfl, rfl⟩
  · exact ⟨rfl, rfl, rfl, rfl, rfl, rfl, rfl⟩

@[simp] theorem schedule_now (due : Nat) (h : Handler) (a : Service) :
    (a.schedule due h).now = a.now := (schedule_frame due h a).1

@[simp] theorem schedule_mode (due : Nat) (h : Handler) (a : Service) :
    (a.schedule due h).mode = a.mode := (schedule_frame due h a).2.2.2.2.1

/-- A new entry is due now or later, so it comes after what has expired, and it is the youngest. -/
theorem Kept.schedule {a : Service} (hk : Kept a) {due : Nat} (hdue : a.now ≤ due) (h : Handler) :
    Kept (a.schedule due h) := by
  unfold Service.schedule
  split_ifs with hroom
  · have hmem : ∀ e, e ∈ a.queue.orderedInsert (fun x y => x.due < y.due) ⟨due, a.nextId, h⟩ ↔
        e = ⟨due, a.nextId, h⟩ ∨ e ∈ a.queue := fun e => List.mem_orderedInsert _
    refine ⟨?_, ?_, ?_, hk.served, hk.ordered, ?_, hk.started, ?_⟩
    · refine pairwise_insert (R := Entry.Before) (fun _ _ _ => Entry.Before.trans) hk.sorted ?_ ?_
      · exact fun b _ hlt => Or.inl hlt
      intro b hb hge
      have hid := hk.numbered b hb
      unfold Entry.Before
      simp only at hge ⊢
      omega
    · intro e he
      rcases (hmem e).mp he with rfl | he
      · exact Nat.lt_succ_self _
      · exact Nat.lt_succ_of_lt (hk.numbered e he)
    · rw [List.orderedInsert_length]
      exact hroom
    · intro x hx e he
      rcases (hmem e).mp he with rfl | he
      · exact ((hk.served x hx).1.trans (hk.served x hx).2).trans hdue
      · exact hk.behind x hx e he
    · have hperm := (List.perm_orderedInsert (fun x y : Entry => x.due < y.due)
        ⟨due, a.nextId, h⟩ a.queue).map Entry.id
      rw [List.range_succ]
      refine ((hperm.append_right _).append_right _).trans ?_
      exact (hk.account.cons _).trans (List.perm_append_singleton _ _).symm
  · exact hk

theorem Kept.cancel {a : Service} (hk : Kept a) (h : Handler) : Kept (a.cancel h) := by
  have hsub : (a.queue.eraseP fun e => e.h == h).Sublist a.queue := List.eraseP_sublist
  refine ⟨hk.sorted.sublist hsub, fun e he => hk.numbered e (hsub.subset he),
    hsub.length_le.trans hk.full, hk.served, hk.ordered,
    fun x hx e he => hk.behind x hx e (hsub.subset he), hk.started, ?_⟩
  refine List.Perm.trans ?_ hk.account
  unfold Service.cancel
  cases hf : a.queue.find? fun e => e.h == h with
  | none =>
    have hnone : ∀ e ∈ a.queue, ¬ (e.h == h) = true := List.find?_eq_none.mp hf
    simp only [List.eraseP_of_forall_not hnone, Option.toList_none, List.append_nil]
    exact List.Perm.refl _
  | some e =>
    obtain ⟨hp, l, m, hl, hfirst⟩ := List.find?_eq_some_iff_append.mp hf
    have hno : ∀ x ∈ l, ¬ (x.h == h) = true := fun x hx => by simpa using hfirst x hx
    have herase : a.queue.eraseP (fun e => e.h == h) = l ++ m := by
      rw [hl, List.eraseP_append_right _ hno, @List.eraseP_cons_of_pos _ e m _ hp]
    rw [herase, hl]
    simp only [List.map_append, List.map_cons, Option.toList_some, List.map_nil, List.append_assoc,
      List.cons_append]
    refine List.Perm.append_left _ ?_
    -- the cancelled entry moves from the middle to the end
    have := (List.perm_append_singleton e.id (m.map Entry.id ++ (a.expired.map (fun x => x.1.id) ++
      a.cancelled.map Entry.id)))
    simpa only [List.append_assoc] using this

theorem Kept.again {a : Service} (hk : Kept a) (cyclic : CyclicTimer) : Kept (a.again cyclic) := by
  unfold Service.again
  split_ifs with hover
  · exact hk.schedule (Nat.le_add_right _ _) _
  · exact hk.schedule (Nat.le_of_not_lt hover) _

theorem Kept.tcpReg {a : Service} (hk : Kept a) (active : Bool) : Kept (a.tcpReg active) := by
  unfold Service.tcpReg
  split_ifs
  · have hk' : Kept { a with pcbs := a.pcbs || active, active := true } := { hk with }
    exact hk'.schedule (Nat.le_add_right _ _) _
  · exact { hk with }

theorem restart_nil {a : Service} (hq : a.queue = []) : a.restart = a := by
  simp [Service.restart, hq]

theorem restart_cons {a : Service} {x : Entry} {rest : List Entry} (hq : a.queue = x :: rest) :
    a.restart =
      { a with queue := a.queue.map fun e => { e with due := e.due - x.due + a.now } } := by
  simp [Service.restart, hq]

theorem Kept.restart {a : Service} (hk : Kept a) : Kept a.restart := by
  cases hq : a.queue with
  | nil => rwa [restart_nil hq]
  | cons x rest =>
    have hhead : ∀ e ∈ a.queue, x.due ≤ e.due := hk.head_due_le hq
    rw [restart_cons hq]
    refine ⟨?_, ?_, ?_, hk.served, hk.ordered, ?_, hk.started, ?_⟩
    · rw [List.pairwise_map]
      refine hk.sorted.imp_of_mem fun {y z} hy hz hyz => ?_
      have := hhead y hy
      have := hhead z hz
      unfold Entry.Before at hyz ⊢
      simp only
      omega
    · intro e he
      obtain ⟨y, hy, rfl⟩ := List.mem_map.mp he
      exact hk.numbered y hy
    · rw [List.length_map]
      exact hk.full
    · intro y hy e he
      obtain ⟨z, -, rfl⟩ := List.mem_map.mp he
      have := hk.served y hy
      simp only
      omega
    · rw [List.map_map]
      exact hk.account

/-- A round ends the check when nothing is due, and takes the first entry off otherwise. -/
theorem round_cases (now : Nat) (a : Service) :
    ((∀ x ∈ a.queue.head?, now < x.due) ∧ a.round now = { a with mode := .main }) ∨
      ∃ x rest, a.queue = x :: rest ∧ x.due ≤ now ∧
        a.round now =
          { a with
            queue := rest
            due := x.due
            expired := a.expired ++ [(x, a.now)]
            mode := .enter now x.h } := by
  unfold Service.round
  cases hq : a.queue with
  | nil => exact Or.inl ⟨by simp, by simp⟩
  | cons x rest =>
    by_cases hlt : now < x.due
    · exact Or.inl ⟨by simpa using hlt, by simp [hlt]⟩
    · exact Or.inr ⟨x, rest, rfl, Nat.le_of_not_lt hlt, by simp [hlt]⟩

theorem Kept.round {a : Service} (hk : Kept a) {now : Nat} (hm : a.mode = .checking now) :
    Kept (a.round now) := by
  have hnow : now ≤ a.now := by
    have := hk.started
    rwa [Service.start, hm] at this
  obtain ⟨-, hr⟩ | ⟨x, rest, hq, hdue, hr⟩ := round_cases now a
  · rw [hr]
    exact { hk with started := le_rfl }
  · have hs := hk.sorted
    rw [hq] at hs
    obtain ⟨hx, hrest⟩ := List.pairwise_cons.mp hs
    have hin : ∀ e ∈ rest, e ∈ a.queue := fun e he => hq ▸ List.mem_cons_of_mem x he
    have hxq : x ∈ a.queue := hq ▸ List.mem_cons_self
    rw [hr]
    refine ⟨hrest, fun e he => hk.numbered e (hin e he), ?_, ?_, ?_, ?_, ?_, ?_⟩
    · have := hk.full
      rw [hq, List.length_cons] at this
      exact Nat.le_of_succ_le this
    · intro y hy
      rcases List.mem_append.mp hy with hy | hy
      · exact hk.served y hy
      · rw [List.mem_singleton.mp hy]
        exact ⟨hdue.trans hnow, le_rfl⟩
    · rw [List.map_append, List.pairwise_append]
      refine ⟨hk.ordered, List.pairwise_singleton _ _, ?_⟩
      intro d hd d' hd'
      obtain ⟨y, hy, rfl⟩ := List.mem_map.mp hd
      obtain ⟨z, hz, rfl⟩ := List.mem_map.mp hd'
      rw [List.mem_singleton.mp hz]
      exact hk.behind y hy x hxq
    · intro y hy e he
      rcases List.mem_append.mp hy with hy | hy
      · exact hk.behind y hy e (hin e he)
      · rw [List.mem_singleton.mp hy]
        exact (hx e he).due_le
    · simpa only [Service.start, Mode.started_enter, Option.getD_some] using hnow
    · -- the number moves from the head of the queue to the end of the record
      refine List.Perm.trans ?_ hk.account
      rw [hq]
      simp only [List.map_append, List.map_cons, List.map_nil, ← List.append_assoc]
      exact (List.perm_append_singleton _ _).append_right _

theorem Kept.finish {a : Service} (hk : Kept a) (h : Handler) : Kept (a.finish h) := by
  unfold Service.finish
  split
  · exact hk.again _
  · split_ifs
    · exact hk.schedule (Nat.le_add_right _ _) _
    · exact { hk with }
  · exact hk

/-- The end of a handler leaves the clock and the mode to the loop. -/
theorem finish_frame (h : Handler) (a : Service) :
    (a.finish h).now = a.now ∧ (a.finish h).mode = a.mode ∧ (a.finish h).expired = a.expired ∧
      (a.finish h).due = a.due := by
  have hs := fun due g => schedule_frame due g a
  unfold Service.finish Service.again
  split
  · split_ifs
    · exact ⟨(hs _ _).1, (hs _ _).2.2.2.2.1, (hs _ _).2.2.2.2.2.1, (hs _ _).2.1⟩
    · exact ⟨(hs _ _).1, (hs _ _).2.2.2.2.1, (hs _ _).2.2.2.2.2.1, (hs _ _).2.1⟩
  · split_ifs
    · exact ⟨(hs _ _).1, (hs _ _).2.2.2.2.1, (hs _ _).2.2.2.2.2.1, (hs _ _).2.1⟩
    · exact ⟨rfl, rfl, rfl, rfl⟩
  · exact ⟨rfl, rfl, rfl, rfl⟩

/-- **Every event keeps the invariant of the service.** -/
theorem Kept.step {a : Service} (hk : Kept a) (e : Event) : Kept (a.step e) := by
  cases e with
  | tick ms =>
    have hserved : ∀ x ∈ a.expired, x.1.due ≤ x.2 ∧ x.2 ≤ a.now + ms := fun x hx =>
      ⟨(hk.served x hx).1, (hk.served x hx).2.trans (Nat.le_add_right _ _)⟩
    have hstart : a.mode.started.getD (a.now + ms) ≤ a.now + ms := by
      have := hk.started
      unfold Service.start at this
      cases hm : a.mode.started with
      | none => exact le_rfl
      | some now =>
        rw [hm] at this
        exact le_trans this (Nat.le_add_right _ _)
    exact { hk with served := hserved, started := hstart }
  | sysTimeout msecs h arg => exact hk.schedule (Nat.le_add_right _ _) _
  | sysUntimeout h arg => exact hk.cancel _
  | tcpReg active => exact hk.tcpReg active
  | pcbsGone => exact { hk with }
  | sysRestartTimeouts =>
    rcases hm : a.mode with _ | now | ⟨now, h⟩ <;> simp only [Service.step, hm]
    · exact hk.restart
    · exact hk
    · exact hk
  | sysCheckTimeouts =>
    rcases hm : a.mode with _ | now | ⟨now, h⟩ <;> simp only [Service.step, hm]
    · exact { hk with started := le_rfl }
    · exact hk
    · exact hk
  | round =>
    rcases hm : a.mode with _ | now | ⟨now, h⟩ <;> simp only [Service.step, hm]
    · exact hk
    · exact hk.round hm
    · exact hk
  | handlerReturn =>
    rcases hm : a.mode with _ | now | ⟨now, h⟩ <;> simp only [Service.step, hm]
    · exact hk
    · exact hk
    · have hf := hk.finish h
      have hstart : now ≤ (a.finish h).now := by
        have := hf.started
        rwa [Service.start, (finish_frame h a).2.1, hm] at this
      exact { hf with started := hstart }

theorem Kept.init (t : Nat) : Kept (Service.init t) := by
  unfold Service.init
  refine List.foldlRecOn lwipCyclicTimers _ ?_ fun a ha cyclic _ =>
    ha.schedule (Nat.le_add_right _ _) _
  exact ⟨List.Pairwise.nil, by simp, by simp, by simp, List.Pairwise.nil, by simp, le_rfl,
    List.Perm.refl _⟩

end Stm32F407.Lwip.Timeouts
