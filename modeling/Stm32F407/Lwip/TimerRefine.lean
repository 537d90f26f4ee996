import Stm32F407.Lwip.TimerService

/-!
# `timeouts.c` is the timer service on a 32-bit dial

`Refines s a` reads every time of the code as the true time modulo `2^32`. `Window` bounds the true
times to less than half a turn apart; every event keeps it, the passing of time when it is `Timely`.
Under it each operation of the code does what the service does, so the two stay together over every
timely run (`run_together`), and what the service keeps holds of the code.

`Timely` says that the main loop keeps up: no entry gets `2^30` ms late, no check or handler takes
that long, and no delay exceeds the `LWIP_UINT32_MAX / 4` that `sys_timeout` asserts.

Results: `timeouts_in_order` (never early, in the order of the due times, each once) and
`sleeptime_exact`.
-/

namespace Stm32F407.Lwip.Timeouts

open Stm32F407.Lib

/-- How late the main loop may be: `2^30` ms are over twelve days. -/
def slackMs : Nat := 2 ^ 30

/-- `LWIP_UINT32_MAX / 4`, the longest delay `sys_timeout` asserts. -/
def maxDelay : Nat := 0xFFFFFFFF / 4

/-- No two times of the service are half a turn of the dial apart. -/
structure Window (a : Service) : Prop where
  late : ∀ e ∈ a.queue, a.now ≤ e.due + slackMs
  ahead : ∀ e ∈ a.queue, e.due < a.start + 2 ^ 31
  spread : ∀ x ∈ a.queue, ∀ y ∈ a.queue, y.due < x.due + 2 ^ 31
  check : a.now ≤ a.start + slackMs
  running : ∀ now h, a.mode = .handler now h → a.due ≤ a.now ∧ a.now ≤ a.due + slackMs

/-- The main loop keeps up: the time that passes leaves no entry, no check and no handler behind by
more than `slackMs`, and no delay is longer than `sys_timeout` takes. -/
def Timely (a : Service) : Event → Prop
  | .tick ms =>
    (∀ e ∈ a.queue, a.now + ms ≤ e.due + slackMs) ∧
      match a.mode with
      | .main => True
      | .checking now => a.now + ms ≤ now + slackMs
      | .handler now _ => a.now + ms ≤ now + slackMs ∧ a.now + ms ≤ a.due + slackMs
  | .sysTimeout msecs _ _ => msecs.toNat ≤ maxDelay
  | _ => True

instance Timely.instDecidable (a : Service) : ∀ e, Decidable (Timely a e)
  | .tick ms =>
    @instDecidableAnd _ _ inferInstance <|
      match a.mode with
      | .main => inferInstanceAs (Decidable True)
      | .checking now => inferInstanceAs (Decidable (a.now + ms ≤ now + slackMs))
      | .handler now _ =>
        inferInstanceAs (Decidable (a.now + ms ≤ now + slackMs ∧ a.now + ms ≤ a.due + slackMs))
  | .sysTimeout msecs _ _ => inferInstanceAs (Decidable (msecs.toNat ≤ maxDelay))
  | .sysUntimeout _ _ => inferInstanceAs (Decidable True)
  | .tcpReg _ => inferInstanceAs (Decidable True)
  | .pcbsGone => inferInstanceAs (Decidable True)
  | .sysRestartTimeouts => inferInstanceAs (Decidable True)
  | .sysCheckTimeouts => inferInstanceAs (Decidable True)
  | .round => inferInstanceAs (Decidable True)
  | .handlerReturn => inferInstanceAs (Decidable True)

/-- An entry as the code stores it. -/
def Entry.stored (e : Entry) : SysTimeo := ⟨BitVec.ofNat 32 e.due, e.h⟩

/-- The mode with its time as the dial shows it. -/
def Mode.dial : Mode Nat → Mode (BitVec 32)
  | .main => .main
  | .checking now => .checking (BitVec.ofNat 32 now)
  | .handler now h => .handler (BitVec.ofNat 32 now) h

/-- The code's state shows the service's on the dial. -/
structure Refines (s : Sys) (a : Service) : Prop where
  sysNow : s.sysNow = BitVec.ofNat 32 a.now
  nextTimeout : s.nextTimeout = a.queue.map Entry.stored
  mempFree : s.mempFree + a.queue.length = mempNumSysTimeout
  dueTime : s.currentTimeoutDueTime = BitVec.ofNat 32 a.due
  active : s.tcpipTcpTimerActive = a.active
  pcbs : s.pcbs = a.pcbs
  mode : s.mode = a.mode.dial
  expired : s.expired = a.expired.map fun x => x.1.stored

variable {s : Sys} {a : Service}

/-! ## The window -/

theorem intervalMs_le (cyclic : CyclicTimer) : cyclic.intervalMs ≤ 60000 := by
  cases cyclic <;> decide

theorem Window.insert (hw : Window a) {due : Nat} (hge : a.now ≤ due)
    (hle : due ≤ a.now + maxDelay) (hstart : a.start ≤ a.now) (h : Handler) :
    Window (a.schedule due h) := by
  have hmax : maxDelay + slackMs < 2 ^ 31 := by decide
  unfold Service.schedule
  split_ifs with hroom
  · have hmem : ∀ e, e ∈ a.queue.orderedInsert (fun x y => x.due < y.due) ⟨due, a.nextId, h⟩ →
        e.due = due ∨ e ∈ a.queue := by
      intro e he
      rcases (List.mem_orderedInsert _).mp he with rfl | he
      · exact Or.inl rfl
      · exact Or.inr he
    refine ⟨?_, ?_, ?_, hw.check, hw.running⟩
    · intro e he
      rcases hmem e he with hd | he
      · rw [hd]
        exact hge.trans (Nat.le_add_right _ _)
      · exact hw.late e he
    · intro e he
      rcases hmem e he with hd | he
      · have := hw.check
        rw [hd]
        show due < a.start + 2 ^ 31
        omega
      · exact hw.ahead e he
    · intro x hx y hy
      rcases hmem x hx with hd | hx <;> rcases hmem y hy with hd' | hy
      · omega
      · have := hw.ahead y hy
        omega
      · have := hw.late x hx
        omega
      · exact hw.spread x hx y hy
  · exact hw

theorem Window.again (hw : Window a) (hstart : a.start ≤ a.now) {now : Nat} {h : Handler}
    (hm : a.mode = .handler now h) (cyclic : CyclicTimer) : Window (a.again cyclic) := by
  have hint := intervalMs_le cyclic
  have hmax : 60000 ≤ maxDelay := by decide
  have hrun := hw.running now h hm
  unfold Service.again
  split_ifs with hover
  · exact hw.insert (Nat.le_add_right _ _) (by omega) hstart _
  · exact hw.insert (Nat.le_of_not_lt hover) (by omega) hstart _

theorem tcpTmrInterval_le : tcpTmrInterval ≤ maxDelay := by decide

theorem Window.tcpReg (hw : Window a) (hstart : a.start ≤ a.now) (active : Bool) :
    Window (a.tcpReg active) := by
  unfold Service.tcpReg
  split_ifs
  · have hw' : Window { a with pcbs := a.pcbs || active, active := true } := { hw with }
    exact hw'.insert (Nat.le_add_right _ _) (Nat.add_le_add_left tcpTmrInterval_le _) hstart _
  · exact { hw with }

theorem Window.cancel (hw : Window a) (h : Handler) : Window (a.cancel h) := by
  have hsub : (a.queue.eraseP fun e => e.h == h) ⊆ a.queue := List.eraseP_subset
  exact ⟨fun e he => hw.late e (hsub he), fun e he => hw.ahead e (hsub he),
    fun x hx y hy => hw.spread x (hsub hx) y (hsub hy), hw.check, hw.running⟩

/-- Rebasing moves all entries together, so their spread bounds how far ahead they end up. -/
theorem Window.restart (hw : Window a) (hk : Kept a) (hm : a.mode = .main) :
    Window a.restart := by
  cases hq : a.queue with
  | nil => rwa [restart_nil hq]
  | cons x rest =>
    have hx : x ∈ a.queue := hq ▸ List.mem_cons_self
    have hhead := hk.head_due_le hq
    have hstart : a.start = a.now := by rw [Service.start, hm]; rfl
    rw [restart_cons hq]
    refine ⟨?_, ?_, ?_, hw.check, hw.running⟩
    · intro e he
      obtain ⟨y, -, rfl⟩ := List.mem_map.mp he
      simp only
      omega
    · intro e he
      obtain ⟨y, hy, rfl⟩ := List.mem_map.mp he
      have := hw.spread x hx y hy
      show y.due - x.due + a.now < a.start + 2 ^ 31
      omega
    · intro e he e' he'
      obtain ⟨y, hy, rfl⟩ := List.mem_map.mp he
      obtain ⟨z, hz, rfl⟩ := List.mem_map.mp he'
      have := hw.spread y hy z hz
      have := hhead y hy
      have := hhead z hz
      simp only
      omega

theorem Window.round (hw : Window a) (hk : Kept a) {now : Nat} (hm : a.mode = .checking now) :
    Window (a.round now) := by
  have hstart : a.start = now := by rw [Service.start, hm]; rfl
  have hnow : now ≤ a.now := hstart ▸ hk.started
  obtain ⟨-, hr⟩ | ⟨x, rest, hq, hdue, hr⟩ := round_cases now a
  · rw [hr]
    refine ⟨hw.late, ?_, hw.spread, Nat.le_add_right _ _, fun _ _ h => by cases h⟩
    intro e he
    have := hw.ahead e he
    show e.due < a.now + 2 ^ 31
    omega
  · have hin : ∀ e ∈ rest, e ∈ a.queue := fun e he => hq ▸ List.mem_cons_of_mem x he
    have hx : x ∈ a.queue := hq ▸ List.mem_cons_self
    rw [hr]
    have hstart' : Service.start { a with
        queue := rest, due := x.due, expired := a.expired ++ [(x, a.now)],
        mode := .enter now x.h } = a.start := by
      simp only [Service.start, Mode.started_enter, Option.getD_some]
      exact hstart.symm
    refine ⟨fun e he => hw.late e (hin e he), ?_,
      fun y hy z hz => hw.spread y (hin y hy) z (hin z hz), ?_, fun _ _ _ => ⟨hdue.trans hnow, hw.late x hx⟩⟩
    · intro e he
      rw [hstart']
      exact hw.ahead e (hin e he)
    · rw [hstart']
      exact hw.check

theorem Window.finish (hw : Window a) (hk : Kept a) {now : Nat} {h : Handler}
    (hm : a.mode = .handler now h) : Window { a.finish h with mode := .checking now } := by
  have hf : Window (a.finish h) := by
    unfold Service.finish
    split
    · exact hw.again hk.started hm _
    · split_ifs
      · exact hw.insert (Nat.le_add_right _ _) (Nat.add_le_add_left tcpTmrInterval_le _)
          hk.started _
      · exact { hw with }
    · exact hw
  have hstart : (a.finish h).start = now := by
    rw [Service.start, (finish_frame h a).2.1, hm]
    rfl
  have hahead : ∀ e ∈ (a.finish h).queue, e.due < now + 2 ^ 31 := hstart ▸ hf.ahead
  have hcheck : (a.finish h).now ≤ now + slackMs := hstart ▸ hf.check
  exact { hf with ahead := hahead, check := hcheck, running := fun _ _ h => by cases h }

theorem Window.tick (hw : Window a) (hk : Kept a) {ms : Nat} (ht : Timely a (.tick ms)) :
    Window (a.step (.tick ms)) := by
  obtain ⟨hlate, hmode⟩ := ht
  have hstart : a.start ≤ Service.start { a with now := a.now + ms } := by
    have := hk.started
    unfold Service.start at this ⊢
    cases hm : a.mode.started with
    | none => exact Nat.le_add_right _ _
    | some now => exact le_rfl
  refine ⟨hlate, fun e he => (hw.ahead e he).trans_le (Nat.add_le_add_right hstart _), hw.spread,
    ?_, ?_⟩
  · show a.now + ms ≤ a.mode.started.getD (a.now + ms) + slackMs
    rcases hm : a.mode with _ | now | ⟨now, h⟩
    · exact Nat.le_add_right _ _
    · rw [hm] at hmode
      exact hmode
    · rw [hm] at hmode
      exact hmode.1
  · intro now h hm
    have hm' : a.mode = .handler now h := hm
    rw [hm'] at hmode
    exact ⟨(hw.running now h hm').1.trans (Nat.le_add_right _ _), hmode.2⟩

/-- **Every timely event keeps the window.** -/
theorem Window.step (hw : Window a) (hk : Kept a) {e : Event} (ht : Timely a e) :
    Window (a.step e) := by
  cases e with
  | tick ms => exact hw.tick hk ht
  | sysTimeout msecs h arg =>
    exact hw.insert (Nat.le_add_right _ _) (Nat.add_le_add_left ht _) hk.started _
  | sysUntimeout h arg => exact hw.cancel _
  | tcpReg active => exact hw.tcpReg hk.started active
  | pcbsGone => exact { hw with }
  | sysRestartTimeouts =>
    rcases hm : a.mode with _ | now | ⟨now, h⟩ <;> simp only [Service.step, hm]
    · exact hw.restart hk hm
    · exact hw
    · exact hw
  | sysCheckTimeouts =>
    rcases hm : a.mode with _ | now | ⟨now, h⟩ <;> simp only [Service.step, hm]
    · have hstart : a.start = a.now := by rw [Service.start, hm]; rfl
      have hahead : ∀ e ∈ a.queue, e.due < a.now + 2 ^ 31 := hstart ▸ hw.ahead
      exact { hw with
        ahead := hahead, check := Nat.le_add_right _ _, running := fun _ _ h => by cases h }
    · exact hw
    · exact hw
  | round =>
    rcases hm : a.mode with _ | now | ⟨now, h⟩ <;> simp only [Service.step, hm]
    · exact hw
    · exact hw.round hk hm
    · exact hw
  | handlerReturn =>
    rcases hm : a.mode with _ | now | ⟨now, h⟩ <;> simp only [Service.step, hm]
    · exact hw
    · exact hw
    · exact hw.finish hk hm

/-! ## The operations -/

/-- Within the window the code's comparison is that of the true times. -/
theorem timeLessThan_ofNat {x y : Nat} (hxy : x < y + 2 ^ 31) (hyx : y < x + 2 ^ 31) :
    TimeLessThan (BitVec.ofNat 32 x) (BitVec.ofNat 32 y) ↔ x < y :=
  (timeLessThan_iff _ _).trans (wrapLt_ofNat (by decide : 0 < 32) hxy hyx.le)

theorem Refines.schedule (hr : Refines s a) {due : Nat} (h : Handler)
    (hcmp : ∀ e ∈ a.queue, due < e.due + 2 ^ 31 ∧ e.due < due + 2 ^ 31) :
    Refines (sysTimeoutAbs (BitVec.ofNat 32 due) h s) (a.schedule due h) := by
  have hfree := hr.mempFree
  unfold sysTimeoutAbs Service.schedule
  by_cases hroom : a.queue.length < mempNumSysTimeout
  · rw [if_neg (by omega), if_pos hroom]
    refine ⟨hr.sysNow, ?_, ?_, hr.dueTime, hr.active, hr.pcbs, hr.mode, hr.expired⟩
    · show link _ _ = _
      rw [link_eq, hr.nextTimeout]
      -- the new entry is compared with the stored times as with the true ones
      refine (List.map_orderedInsert _ _ Entry.stored _ ⟨due, a.nextId, h⟩ ?_ ?_).symm
      · intro e he
        exact (timeLessThan_ofNat (hcmp e he).2 (hcmp e he).1).symm
      · intro e he
        exact (timeLessThan_ofNat (hcmp e he).1 (hcmp e he).2).symm
    · show s.mempFree - 1 + (List.orderedInsert _ _ _).length = _
      rw [List.orderedInsert_length]
      omega
  · rw [if_pos (by omega), if_neg hroom]
    exact hr

/-- What is scheduled from now on within the longest delay is comparable with every entry. -/
theorem Window.comparable (hw : Window a) (hstart : a.start ≤ a.now) {due : Nat} (hge : a.now ≤ due)
    (hle : due ≤ a.now + maxDelay) :
    ∀ e ∈ a.queue, due < e.due + 2 ^ 31 ∧ e.due < due + 2 ^ 31 := by
  have hmax : maxDelay + slackMs < 2 ^ 31 := by decide
  intro e he
  have := hw.late e he
  have := hw.ahead e he
  omega

theorem Refines.sysTimeout (hr : Refines s a) (hw : Window a) (hstart : a.start ≤ a.now)
    {ms : Nat} (hle : ms ≤ maxDelay) (h : Handler) :
    Refines (sysTimeout (BitVec.ofNat 32 ms) h s) (a.schedule (a.now + ms) h) := by
  unfold Timeouts.sysTimeout
  rw [hr.sysNow, ← BitVec.ofNat_add]
  exact hr.schedule h (hw.comparable hstart (Nat.le_add_right _ _) (Nat.add_le_add_left hle _))

theorem Refines.sysUntimeout (hr : Refines s a) (h : Handler) :
    Refines (sysUntimeout h s) (a.cancel h) := by
  have hany : s.nextTimeout.any (fun t => t.h == h) = a.queue.any fun e => e.h == h := by
    rw [hr.nextTimeout, List.any_map]
    rfl
  have herase : s.nextTimeout.eraseP (fun t => t.h == h) =
      (a.queue.eraseP fun e => e.h == h).map Entry.stored := by
    rw [hr.nextTimeout, List.eraseP_map]
    rfl
  have hlen := @List.length_eraseP _ (fun e => e.h == h) a.queue
  have hfree := hr.mempFree
  unfold Timeouts.sysUntimeout
  rw [unlink_eq, hany, herase]
  by_cases hfound : (a.queue.any fun e => e.h == h) = true
  · rw [if_pos hfound] at hlen ⊢
    obtain ⟨e, he, -⟩ := List.any_eq_true.mp hfound
    have hpos := List.length_pos_of_mem he
    refine ⟨hr.sysNow, rfl, ?_, hr.dueTime, hr.active, hr.pcbs, hr.mode, hr.expired⟩
    show s.mempFree + 1 + (a.queue.eraseP fun e => e.h == h).length = _
    omega
  · rw [if_neg hfound] at hlen ⊢
    have hno : ∀ e ∈ a.queue, ¬ (e.h == h) = true := fun e he hp =>
      hfound (List.any_eq_true.mpr ⟨e, he, hp⟩)
    refine ⟨hr.sysNow, ?_, ?_, hr.dueTime, hr.active, hr.pcbs, hr.mode, hr.expired⟩
    · show s.nextTimeout = (a.queue.eraseP fun e => e.h == h).map Entry.stored
      rw [List.eraseP_of_forall_not hno, hr.nextTimeout]
    · show s.mempFree + (a.queue.eraseP fun e => e.h == h).length = _
      omega

theorem Refines.tcpReg (hr : Refines s a) (hw : Window a) (hstart : a.start ≤ a.now)
    (active : Bool) : Refines (tcpReg active s) (a.tcpReg active) := by
  unfold Timeouts.tcpReg tcpTimerNeeded Service.tcpReg
  simp only [hr.active, hr.pcbs]
  split_ifs with hneeded
  · have hr' : Refines { s with pcbs := a.pcbs || active, tcpipTcpTimerActive := true }
        { a with pcbs := a.pcbs || active, active := true } :=
      { hr with active := rfl, pcbs := rfl }
    have hw' : Window { a with pcbs := a.pcbs || active, active := true } := { hw with }
    exact hr'.sysTimeout hw' hstart tcpTmrInterval_le _
  · exact { hr with active := rfl, pcbs := rfl }

theorem Refines.lwipCyclicTimer (hr : Refines s a) (hw : Window a) (hstart : a.start ≤ a.now)
    {now : Nat} {h : Handler} (hm : a.mode = .handler now h) (cyclic : CyclicTimer) :
    Refines (lwipCyclicTimer cyclic s) (a.again cyclic) := by
  have hint := intervalMs_le cyclic
  have hmax : 60000 ≤ maxDelay := by decide
  have hrun := hw.running now h hm
  have hslack : slackMs < 2 ^ 31 := by decide
  have hcmp : TimeLessThan (BitVec.ofNat 32 (a.due + cyclic.intervalMs)) (BitVec.ofNat 32 a.now) ↔
      a.due + cyclic.intervalMs < a.now := timeLessThan_ofNat (by omega) (by omega)
  unfold Timeouts.lwipCyclicTimer Service.again
  simp only [hr.sysNow, hr.dueTime, ← BitVec.ofNat_add, hcmp]
  split_ifs with hover
  · exact hr.schedule _ (hw.comparable hstart (Nat.le_add_right _ _) (by omega))
  · exact hr.schedule _ (hw.comparable hstart (Nat.le_of_not_lt hover) (by omega))

/-- The differences the code rebases by are the true ones. -/
theorem Refines.sysRestartTimeouts (hr : Refines s a) (hk : Kept a) :
    Refines (sysRestartTimeouts s) a.restart := by
  cases hq : a.queue with
  | nil =>
    have hn : s.nextTimeout = [] := by rw [hr.nextTimeout, hq]; rfl
    rw [restart_nil hq]
    simpa [Timeouts.sysRestartTimeouts, hn] using hr
  | cons x rest =>
    have hn : s.nextTimeout = x.stored :: rest.map Entry.stored := by rw [hr.nextTimeout, hq]; rfl
    have hres : Timeouts.sysRestartTimeouts s = { s with
        nextTimeout := s.nextTimeout.map fun u =>
          { u with time := u.time - x.stored.time + s.sysNow } } := by
      simp [Timeouts.sysRestartTimeouts, hn]
    rw [restart_cons hq, hres]
    refine ⟨hr.sysNow, ?_, ?_, hr.dueTime, hr.active, hr.pcbs, hr.mode, hr.expired⟩
    · show s.nextTimeout.map _ = (a.queue.map _).map Entry.stored
      rw [hr.nextTimeout, List.map_map, List.map_map]
      refine List.map_congr_left fun e he => ?_
      have hle := hk.head_due_le hq e he
      simp only [Function.comp_apply, Entry.stored, hr.sysNow, SysTimeo.mk.injEq, and_true]
      rw [ofNat_sub_of_le hle, ← BitVec.ofNat_add]
    · show s.mempFree + (a.queue.map _).length = _
      rw [List.length_map]
      exact hr.mempFree

theorem dial_enter (now : Nat) (h : Handler) :
    (Mode.enter now h).dial = Mode.enter (BitVec.ofNat 32 now) h := by
  unfold Mode.enter
  split <;> rfl

theorem Refines.checkRound (hr : Refines s a) (hw : Window a) (hk : Kept a) {now : Nat}
    (hm : a.mode = .checking now) :
    Refines (checkRound (BitVec.ofNat 32 now) s) (a.round now) := by
  have hstart : a.start = now := by rw [Service.start, hm]; rfl
  have hslack : slackMs < 2 ^ 31 := by decide
  have hcmp : ∀ x ∈ a.queue,
      (TimeLessThan (BitVec.ofNat 32 now) (BitVec.ofNat 32 x.due) ↔ now < x.due) := by
    intro x hx
    have := hw.late x hx
    have := hw.ahead x hx
    have := hk.started
    exact timeLessThan_ofNat (by omega) (by omega)
  obtain ⟨hnone, hround⟩ | ⟨x, rest, hq, hdue, hround⟩ := round_cases now a
  · have hdone : ∀ t ∈ s.nextTimeout.head?, TimeLessThan (BitVec.ofNat 32 now) t.time := by
      intro t ht
      rw [hr.nextTimeout, List.head?_map] at ht
      obtain ⟨x, hx, rfl⟩ := Option.mem_map.mp ht
      exact (hcmp x (List.mem_of_mem_head? hx)).mpr (hnone x hx)
    rw [checkRound_done hdone, hround]
    exact { hr with mode := rfl }
  · have hx : x ∈ a.queue := hq ▸ List.mem_cons_self
    have hn : s.nextTimeout = x.stored :: rest.map Entry.stored := by rw [hr.nextTimeout, hq]; rfl
    have hfree := hr.mempFree
    rw [hq, List.length_cons] at hfree
    rw [checkRound_expired hn (fun h => absurd ((hcmp x hx).mp h) (Nat.not_lt.mpr hdue)), hround]
    refine ⟨hr.sysNow, rfl, ?_, rfl, hr.active, hr.pcbs, (dial_enter now x.h).symm, ?_⟩
    · show s.mempFree + 1 + rest.length = _
      omega
    · show s.expired ++ _ = (a.expired ++ [(x, a.now)]).map _
      rw [hr.expired, List.map_append]
      rfl

theorem Refines.handlerReturn (hr : Refines s a) (hw : Window a) (hstart : a.start ≤ a.now)
    {now : Nat} {h : Handler} (hm : a.mode = .handler now h) :
    Refines (handlerReturn h s) (a.finish h) := by
  unfold Timeouts.handlerReturn Service.finish
  split
  · exact hr.lwipCyclicTimer hw hstart hm _
  · unfold tcpipTcpTimer
    by_cases hp : a.pcbs = true
    · rw [if_pos (hr.pcbs.trans hp), if_pos hp]
      exact hr.sysTimeout hw hstart tcpTmrInterval_le _
    · rw [if_neg (by rwa [hr.pcbs]), if_neg hp]
      exact { hr with active := rfl }
  · exact hr

/-- **One event of the code is one event of the service.** -/
theorem Refines.step (hr : Refines s a) (hw : Window a) (hk : Kept a) {e : Event}
    (ht : Timely a e) : Refines (s.step e) (a.step e) := by
  have hmode := hr.mode
  cases e with
  | tick ms =>
    refine { hr with sysNow := ?_ }
    show s.sysNow + _ = _
    rw [hr.sysNow, ← BitVec.ofNat_add]
    rfl
  | sysTimeout msecs h arg =>
    have := hr.sysTimeout hw hk.started ht (.other h arg)
    rwa [BitVec.ofNat_toNat, BitVec.setWidth_eq] at this
  | sysUntimeout h arg => exact hr.sysUntimeout _
  | tcpReg active => exact hr.tcpReg hw hk.started active
  | pcbsGone => exact { hr with pcbs := rfl }
  | sysRestartTimeouts =>
    rcases hm : a.mode with _ | now | ⟨now, h⟩ <;> rw [hm] at hmode <;>
      simp only [Sys.step, Service.step, hm, hmode, Mode.dial]
    · exact hr.sysRestartTimeouts hk
    · exact hr
    · exact hr
  | sysCheckTimeouts =>
    rcases hm : a.mode with _ | now | ⟨now, h⟩ <;> rw [hm] at hmode <;>
      simp only [Sys.step, Service.step, hm, hmode, Mode.dial]
    · exact { hr with mode := congrArg Mode.checking hr.sysNow }
    · exact hr
    · exact hr
  | round =>
    rcases hm : a.mode with _ | now | ⟨now, h⟩ <;> rw [hm] at hmode <;>
      simp only [Sys.step, Service.step, hm, hmode, Mode.dial]
    · exact hr
    · exact hr.checkRound hw hk hm
    · exact hr
  | handlerReturn =>
    rcases hm : a.mode with _ | now | ⟨now, h⟩ <;> rw [hm] at hmode <;>
      simp only [Sys.step, Service.step, hm, hmode, Mode.dial]
    · exact hr
    · exact hr
    · exact { hr.handlerReturn hw hk.started hm with mode := rfl }

/-! ## Whole runs -/

/-- What holds at every point of a timely run. -/
structure Together (s : Sys) (a : Service) : Prop where
  kept : Kept a
  window : Window a
  refines : Refines s a

/-- The system after `sys_timeouts_init` at time `t`. -/
def Sys.init (t : Nat) : Sys := sysTimeoutsInit (.reset (BitVec.ofNat 32 t))

theorem Together.init (t : Nat) : Together (Sys.init t) (Service.init t) := by
  have hstep : ∀ (s : Sys) (a : Service) (cyclic : CyclicTimer), a.mode = .main → Together s a →
      Together (sysTimeout (BitVec.ofNat 32 cyclic.intervalMs) (.lwipCyclicTimer cyclic) s)
        (a.schedule (a.now + cyclic.intervalMs) (.lwipCyclicTimer cyclic)) := by
    intro s a cyclic hm ⟨hk, hw, hr⟩
    have hint := intervalMs_le cyclic
    have hmax : cyclic.intervalMs ≤ maxDelay := hint.trans (by decide)
    exact ⟨hk.schedule (Nat.le_add_right _ _) _,
      hw.insert (Nat.le_add_right _ _) (Nat.add_le_add_left hmax _) hk.started _,
      hr.sysTimeout hw hk.started hmax _⟩
  -- the five timers one after the other
  have hfold : ∀ (l : List CyclicTimer) (s : Sys) (a : Service), a.mode = .main → Together s a →
      Together (l.foldl (fun s cyclic =>
          sysTimeout (BitVec.ofNat 32 cyclic.intervalMs) (.lwipCyclicTimer cyclic) s) s)
        (l.foldl (fun a cyclic =>
          a.schedule (a.now + cyclic.intervalMs) (.lwipCyclicTimer cyclic)) a) := by
    intro l
    induction l with
    | nil => exact fun s a _ h => h
    | cons c l ih =>
      exact fun s a hm h => ih _ _ (by rw [schedule_mode, hm]) (hstep s a c hm h)
  unfold Sys.init sysTimeoutsInit Service.init
  refine hfold lwipCyclicTimers _ _ rfl ⟨?_, ?_, ?_⟩
  · exact ⟨List.Pairwise.nil, by simp, by simp, by simp, List.Pairwise.nil, by simp, le_rfl,
      List.Perm.refl _⟩
  · exact ⟨by simp, by simp, by simp, Nat.le_add_right _ _, fun _ _ h => by cases h⟩
  · exact ⟨rfl, rfl, rfl, rfl, rfl, rfl, rfl, rfl⟩

/-- **The code and the service stay together over every timely run.** -/
theorem run_together (t : Nat) {es : List Event}
    (ht : AllSteps Service.step Timely (Service.init t) es) :
    Together (run Sys.step (Sys.init t) es) (run Service.step (Service.init t) es) := by
  have hrun : ∀ (es : List Event) (s : Sys) (a : Service), Together s a →
      AllSteps Service.step Timely a es → Together (run Sys.step s es) (run Service.step a es) := by
    intro es
    induction es with
    | nil => exact fun s a h _ => h
    | cons e es ih =>
      intro s a h ht
      exact ih _ _ ⟨h.kept.step e, h.window.step h.kept ht.1, h.refines.step h.window h.kept ht.1⟩
        ht.2
  exact hrun es _ _ (Together.init t) ht

/-- **Timeouts are served like a timer service on unbounded time**: in every timely run, the list
is the service's queue on the dial, what has expired is what the service served, none of it early,
in the order of the due times, and every timeout ever taken on is in the list, expired or cancelled,
and in one of these only. -/
theorem timeouts_in_order (t : Nat) (es : List Event)
    (ht : AllSteps Service.step Timely (Service.init t) es) :
    let s := run Sys.step (Sys.init t) es
    let a := run Service.step (Service.init t) es
    s.sysNow = BitVec.ofNat 32 a.now ∧
      s.nextTimeout = a.queue.map Entry.stored ∧ a.queue.Pairwise Entry.Before ∧
      s.expired = (a.expired.map fun x => x.1.stored) ∧ (∀ x ∈ a.expired, x.1.due ≤ x.2) ∧
      (a.expired.map fun x => x.1.due).Pairwise (· ≤ ·) ∧
      (a.queue.map Entry.id ++ a.expired.map (fun x => x.1.id) ++ a.cancelled.map Entry.id).Perm
        (List.range a.nextId) := by
  have h := run_together t ht
  exact ⟨h.refines.sysNow, h.refines.nextTimeout, h.kept.sorted, h.refines.expired,
    fun x hx => (h.kept.served x hx).1, h.kept.ordered, h.kept.account⟩

/-- A check across the wrap of the counter, with two timeouts of 40 ms of which one is cancelled. -/
def wrapRun : List Event :=
  [.sysTimeout 40 1 0, .sysTimeout 40 2 0, .sysUntimeout 1 0, .tick 100, .sysCheckTimeouts, .round,
    .handlerReturn, .round, .tick 10, .handlerReturn, .round]

theorem timeouts_in_order_wrap :
    (run Sys.step (Sys.init (2 ^ 32 - 50)) wrapRun).expired =
        [⟨BitVec.ofNat 32 (2 ^ 32 - 10), .other 2 0⟩, ⟨50, .lwipCyclicTimer .autoipTmr⟩] ∧
      ∀ x ∈ (run Service.step (Service.init (2 ^ 32 - 50)) wrapRun).expired, x.1.due ≤ x.2 :=
  ⟨by decide, (timeouts_in_order (2 ^ 32 - 50) wrapRun (by decide)).2.2.2.2.1⟩

/-- **The sleep time is exact**: in every timely run, `sys_timeouts_sleeptime` is infinite only on
an empty list, and is otherwise the time until the first timeout is due, 0 once it is. -/
theorem sleeptime_exact (t : Nat) (es : List Event)
    (ht : AllSteps Service.step Timely (Service.init t) es) :
    let s := run Sys.step (Sys.init t) es
    let a := run Service.step (Service.init t) es
    (sysTimeoutsSleeptime s = 0xFFFFFFFF#32 ↔ a.queue = []) ∧
      ∀ x ∈ a.queue.head?, (sysTimeoutsSleeptime s).toNat = x.due - a.now ∧
        ∀ e ∈ a.queue, a.now + (sysTimeoutsSleeptime s).toNat ≤ max a.now e.due := by
  intro s a
  obtain ⟨hk, hw, hr⟩ : Together s a := run_together t ht
  have hhead : ∀ x ∈ a.queue.head?, (sysTimeoutsSleeptime s).toNat = x.due - a.now := by
    intro x hx
    obtain ⟨rest, hq⟩ := List.head?_eq_some_iff.mp hx
    have hmem := List.mem_of_mem_head? hx
    have hlate := hw.late x hmem
    have hahead := hw.ahead x hmem
    have hstart := hk.started
    have hslack : slackMs < 2 ^ 31 := by decide
    have hcmp : TimeLessThan (BitVec.ofNat 32 x.due) (BitVec.ofNat 32 a.now) ↔ x.due < a.now :=
      timeLessThan_ofNat (by omega) (by omega)
    have hs : sysTimeoutsSleeptime s = if x.due < a.now then 0
        else BitVec.ofNat 32 x.due - BitVec.ofNat 32 a.now := by
      simp only [sysTimeoutsSleeptime, hr.nextTimeout, hq, List.map_cons, Entry.stored, hr.sysNow,
        hcmp]
    rw [hs]
    split_ifs with hlt
    · rw [Nat.sub_eq_zero_of_le hlt.le]
      rfl
    · rw [ofNat_sub_of_le (Nat.le_of_not_lt hlt), BitVec.toNat_ofNat, Nat.mod_eq_of_lt (by omega)]
  refine ⟨⟨fun hinf => ?_, fun hq => ?_⟩, fun x hx => ⟨hhead x hx, fun e he => ?_⟩⟩
  · cases hq : a.queue with
    | nil => rfl
    | cons x rest =>
      -- a finite wait is below half a turn
      have hx : x ∈ a.queue.head? := by rw [hq]; rfl
      have hval := hhead x hx
      have hahead := hw.ahead x (List.mem_of_mem_head? hx)
      have hstart := hk.started
      rw [hinf, show (0xFFFFFFFF#32).toNat = 2 ^ 32 - 1 from rfl] at hval
      omega
  · simp only [sysTimeoutsSleeptime, hr.nextTimeout, hq, List.map_nil]
  · obtain ⟨rest, hq⟩ := List.head?_eq_some_iff.mp hx
    have := hk.head_due_le hq e he
    rw [hhead x hx]
    omega

theorem sleeptime_exact_wrap :
    (sysTimeoutsSleeptime (run Sys.step (Sys.init (2 ^ 32 - 50)) [.tick 30])).toNat = 70 := by
  have h := (sleeptime_exact (2 ^ 32 - 50) [.tick 30] (by decide)).2
    ⟨2 ^ 32 + 50, 4, .lwipCyclicTimer .autoipTmr⟩ (by decide)
  exact h.1

end Stm32F407.Lwip.Timeouts
