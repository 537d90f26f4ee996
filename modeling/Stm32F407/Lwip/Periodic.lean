import Mathlib.Data.List.Induction
import Mathlib.Logic.Function.Basic
import Stm32F407.Lib.Runs

/-!
# The periodic timers: `lwip_periodic_handle` of `lwip_app_comm.c`

`TIM3_IRQHandler` adds 10 to `lwip_sys_timer` and `lwip_periodic_handle`, called from the main loop,
runs four lwIP timers, each with a mark of its own that holds the time of its last run.

* The four blocks of the handler differ in their mark, their interval and what they call, so they
  are one definition (`runTimer`) over `Timer`.
* The functions a block calls are the handler's output.

The handler takes the elapsed time as `(now - mark + 0xFFFFFFFF) % 0xFFFFFFFF`. In 32 bits the
addition takes one away and the modulus never bites (`numTimeDelta_toNat`), so a timer runs only
once its interval has been exceeded (`mem_calls_iff`), and `periodic_run_iff` says when a run does
not show it.
-/

namespace Stm32F407.Lwip

open Stm32F407.Lib

/-- The timers of `lwip_periodic_handle`, in the order of its blocks. -/
inductive Timer where
  | tcp
  | arp
  | dhcpFine
  | dhcpCoarse
deriving DecidableEq, Repr

/-- The functions the blocks call. -/
inductive TimerCall where
  | tcpTmr
  | etharpTmr
  | dhcpFineTmr
  | lwipDhcpProcessHandle
  | dhcpCoarseTmr
deriving DecidableEq, Repr

/-- The timer function a block is for. -/
def Timer.tmr : Timer → TimerCall
  | .tcp => .tcpTmr
  | .arp => .etharpTmr
  | .dhcpFine => .dhcpFineTmr
  | .dhcpCoarse => .dhcpCoarseTmr

/-- All that a block calls. -/
def Timer.body : Timer → List TimerCall
  | .tcp => [.tcpTmr]
  | .arp => [.etharpTmr]
  | .dhcpFine => [.dhcpFineTmr, .lwipDhcpProcessHandle]
  | .dhcpCoarse => [.dhcpCoarseTmr]

/-- `TCP_TMR_INTERVAL`, `ARP_TMR_INTERVAL`, `DHCP_FINE_TIMER_MSECS`, `DHCP_COARSE_TIMER_MSECS`. -/
def Timer.interval : Timer → Nat
  | .tcp => 25
  | .arp => 5000
  | .dhcpFine => 500
  | .dhcpCoarse => 60 * 1000

/-- `lwip_sys_timer` and the marks `TCPTimer`, `ARPTimer`, `DHCPfineTimer` and `DHCPCoarseTimer`. -/
structure LwipTimers where
  lwipSysTimer : BitVec 32
  mark : Timer → BitVec 32

/-- `numTimeDelta`, as every block computes it. -/
def numTimeDelta (now mark : BitVec 32) : BitVec 32 := (now - mark + 0xFFFFFFFF#32) % 0xFFFFFFFF#32

/-- One block of the handler. -/
def runTimer (r : List TimerCall × LwipTimers) (t : Timer) : List TimerCall × LwipTimers :=
  if t.interval ≤ (numTimeDelta r.2.lwipSysTimer (r.2.mark t)).toNat then
    (r.1 ++ t.body, { r.2 with mark := Function.update r.2.mark t r.2.lwipSysTimer })
  else r

/-- `lwip_periodic_handle`: what it called, and the marks it left. -/
def lwipPeriodicHandle (s : LwipTimers) : List TimerCall × LwipTimers :=
  [Timer.tcp, .arp, .dhcpFine, .dhcpCoarse].foldl runTimer ([], s)

/-- `TIM3_IRQHandler` on an update interrupt. -/
def tim3IrqHandler (s : LwipTimers) : LwipTimers := { s with lwipSysTimer := s.lwipSysTimer + 10 }

/-! ## What the handler does -/

/-- The time since the last run of a timer, modulo `2^32`. -/
def elapsed (s : LwipTimers) (t : Timer) : Nat := (s.lwipSysTimer - s.mark t).toNat

/-- The handler's elapsed time is the true one less one, and 0 for 0. -/
theorem numTimeDelta_toNat (now mark : BitVec 32) :
    (numTimeDelta now mark).toNat = (now - mark).toNat - 1 := by
  have hlt := (now - mark).isLt
  have hmax : (0xFFFFFFFF#32).toNat = 2 ^ 32 - 1 := rfl
  unfold numTimeDelta
  rw [BitVec.toNat_umod, BitVec.toNat_add, hmax]
  generalize (now - mark).toNat = e at hlt
  rcases Nat.eq_zero_or_pos e with rfl | hpos
  · rfl
  · rw [show e + (2 ^ 32 - 1) = e - 1 + 2 ^ 32 by omega, Nat.add_mod_right,
      Nat.mod_eq_of_lt (by omega), Nat.mod_eq_of_lt (by omega)]

/-- The block of `t` runs iff more than the interval has gone by. -/
theorem runTimer_eq (r : List TimerCall × LwipTimers) (t : Timer) :
    runTimer r t = if t.interval < elapsed r.2 t then
      (r.1 ++ t.body, { r.2 with mark := Function.update r.2.mark t r.2.lwipSysTimer }) else r := by
  unfold runTimer elapsed
  rw [numTimeDelta_toNat]
  have hpos : 0 < t.interval := by cases t <;> decide
  by_cases h : t.interval < (r.2.lwipSysTimer - r.2.mark t).toNat
  · rw [if_pos h, if_pos (by omega)]
  · rw [if_neg h, if_neg (by omega)]

/-- The blocks do not disturb each other: after any of them, each exactly once, the calls are those
of the exceeded timers, their marks are the present time, and nothing else has changed. -/
theorem foldl_runTimer (s : LwipTimers) (ts : List Timer) (hnd : ts.Nodup) :
    ts.foldl runTimer ([], s) =
      (ts.flatMap fun t => if t.interval < elapsed s t then t.body else [],
        { s with mark := fun t =>
            if t ∈ ts ∧ t.interval < elapsed s t then s.lwipSysTimer else s.mark t }) := by
  induction ts using List.reverseRecOn with
  | nil => simp
  | append_singleton ts t ih =>
    rw [List.nodup_append] at hnd
    have hnot : t ∉ ts := fun hmem => hnd.2.2 t hmem t (by simp) rfl
    rw [List.foldl_append, ih hnd.1, List.foldl_cons, List.foldl_nil, runTimer_eq]
    -- the blocks before have not touched the mark of `t`
    have helapsed : elapsed { s with mark := fun u =>
        if u ∈ ts ∧ u.interval < elapsed s u then s.lwipSysTimer else s.mark u } t =
          elapsed s t := by
      simp [elapsed, hnot]
    simp only [helapsed]
    split
    · rename_i hdue
      refine Prod.ext (by simp [hdue]) ?_
      simp only [LwipTimers.mk.injEq, true_and]
      funext u
      by_cases hu : u = t
      · simp [hu, hdue]
      · simp [hu]
    · rename_i hdue
      refine Prod.ext (by simp [hdue]) ?_
      simp only [LwipTimers.mk.injEq, true_and]
      funext u
      by_cases hu : u = t
      · simp [hu, hdue, hnot]
      · simp [hu]

/-- **`lwip_periodic_handle`.** -/
theorem lwipPeriodicHandle_eq (s : LwipTimers) :
    lwipPeriodicHandle s =
      ([Timer.tcp, .arp, .dhcpFine, .dhcpCoarse].flatMap fun t =>
          if t.interval < elapsed s t then t.body else [],
        { s with
          mark := fun t => if t.interval < elapsed s t then s.lwipSysTimer else s.mark t }) := by
  rw [lwipPeriodicHandle, foldl_runTimer s _ (by decide)]
  refine Prod.ext rfl ?_
  simp only [LwipTimers.mk.injEq, true_and]
  funext t
  cases t <;> simp

/-- A timer function is called iff its interval has been exceeded. -/
theorem mem_calls_iff (s : LwipTimers) (t : Timer) :
    t.tmr ∈ (lwipPeriodicHandle s).1 ↔ t.interval < elapsed s t := by
  rw [lwipPeriodicHandle_eq, List.mem_flatMap]
  constructor
  · rintro ⟨u, -, hu⟩
    split at hu
    · rename_i hdue
      obtain rfl : t = u := by
        cases t <;> cases u <;> simp [Timer.tmr, Timer.body] at hu ⊢
      exact hdue
    · exact absurd hu List.not_mem_nil
  · intro hdue
    refine ⟨t, by cases t <;> simp, ?_⟩
    rw [if_pos hdue]
    cases t <;> simp [Timer.tmr, Timer.body]

/-! ## Runs -/

/-- What happens to the timers. -/
inductive TimerEvent where
  | tick
  | handle

/-- One event. -/
def timerStep (s : LwipTimers) : TimerEvent → LwipTimers
  | .tick => tim3IrqHandler s
  | .handle => (lwipPeriodicHandle s).2

/-- A call of `lwip_periodic_handle` runs a timer iff its interval has gone by, and then sets the
mark of that timer to the present time; it changes nothing else. -/
def TimerLaw (s : LwipTimers) : TimerEvent → Prop
  | .tick => True
  | .handle => (lwipPeriodicHandle s).2.lwipSysTimer = s.lwipSysTimer ∧
      ∀ t, (t.tmr ∈ (lwipPeriodicHandle s).1 ↔ t.interval ≤ elapsed s t) ∧
        (lwipPeriodicHandle s).2.mark t =
          if t.interval ≤ elapsed s t then s.lwipSysTimer else s.mark t

/-- No timer is exactly due at a call. -/
def TimerOk (s : LwipTimers) : TimerEvent → Prop
  | .tick => True
  | .handle => ∀ t, elapsed s t ≠ t.interval

/-- One call obeys the law iff no timer is exactly due. -/
theorem timerLaw_iff (s : LwipTimers) (e : TimerEvent) : TimerLaw s e ↔ TimerOk s e := by
  cases e with
  | tick => exact Iff.rfl
  | handle =>
    constructor
    · intro h t heq
      have hcall := (h.2 t).1
      rw [mem_calls_iff] at hcall
      exact absurd (hcall.mpr (Nat.le_of_eq heq.symm)) (by omega)
    · intro h
      have hdue : ∀ t : Timer, t.interval < elapsed s t ↔ t.interval ≤ elapsed s t := fun t => by
        have := h t
        omega
      refine ⟨by rw [lwipPeriodicHandle_eq], fun t => ⟨by rw [mem_calls_iff, hdue], ?_⟩⟩
      rw [lwipPeriodicHandle_eq]
      simp only [hdue]

/-- **The periodic timers.** From any time and any marks, and over every run of ticks and calls, the
calls run each timer iff its interval has gone by since its last run, iff no call of the run comes
when the elapsed time of some timer is exactly its interval. -/
theorem periodic_run_iff (s : LwipTimers) (es : List TimerEvent) :
    AllSteps timerStep TimerLaw s es ↔ AllSteps timerStep TimerOk s es := by
  exact allSteps_iff (P := fun _ => True) (fun _ _ _ _ => trivial)
    (fun s e _ => timerLaw_iff s e) trivial

/-- All marks 0 and the time 4990: a tick later the ARP timer is due, and is not run. -/
theorem periodic_run_exactly_due :
    ¬ AllSteps timerStep TimerLaw ⟨4990, fun _ => 0⟩ [.tick, .handle] := by
  rintro ⟨-, ⟨-, hlaw⟩, -⟩
  have harp := (hlaw .arp).1
  revert harp
  decide

end Stm32F407.Lwip
