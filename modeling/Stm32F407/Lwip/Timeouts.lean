import Stm32F407.Lib.Runs
import Stm32F407.Lib.TimerQueue

/-!
# The timeout list: `timeouts.c`

Model of lwIP's software timers, which the main loop drives through `sys_check_timeouts`.

* `sys_now` is the 32-bit millisecond counter `lwip_sys_timer`, and the `time` of a timeout is what
  that counter will show when it is due.
* A handler and its argument are one `Handler`. The two handlers of the file itself
  (`lwip_cyclic_timer` with an entry of `lwip_cyclic_timers`, and `tcpip_tcp_timer`) come back to
  the list when what they call is done; any other is a pair of pointers, and a null handler is not
  called.
* The pool `MEMP_SYS_TIMEOUT` is the number of its free elements. An empty pool drops the timeout:
  the assertion on it is off (`LWIP_NOASSERT`).

`sys_check_timeouts` is not one step. Interrupts move the clock while it runs, and a handler may
schedule, cancel and register connections before it returns, so the machine (`Sys.step`) stands in a
`Mode`: outside, at the head of the loop with the `now` read on entry, or inside a handler. A run is
any list of events; one that does not fit the mode does nothing.
-/

namespace Stm32F407.Lwip.Timeouts

open Stm32F407.Lib

/-- The entries of `lwip_cyclic_timers` from index 1 on. -/
inductive CyclicTimer where
  | ipReassTmr
  | etharpTmr
  | dhcpCoarseTmr
  | dhcpFineTmr
  | autoipTmr
deriving DecidableEq, Repr

/-- `interval_ms`: `IP_TMR_INTERVAL`, `ARP_TMR_INTERVAL`, `DHCP_COARSE_TIMER_MSECS`,
`DHCP_FINE_TIMER_MSECS`, `AUTOIP_TMR_INTERVAL`. -/
def CyclicTimer.intervalMs : CyclicTimer → Nat
  | .ipReassTmr => 1000
  | .etharpTmr => 5000
  | .dhcpCoarseTmr => 60 * 1000
  | .dhcpFineTmr => 500
  | .autoipTmr => 100

/-- `lwip_cyclic_timers`, less the entry of `tcp_tmr`, which is started on demand. -/
def lwipCyclicTimers : List CyclicTimer :=
  [.ipReassTmr, .etharpTmr, .dhcpCoarseTmr, .dhcpFineTmr, .autoipTmr]

/-- `TCP_TMR_INTERVAL`. -/
def tcpTmrInterval : Nat := 25

/-- `MEMP_NUM_SYS_TIMEOUT`. -/
def mempNumSysTimeout : Nat := 10

/-- A `sys_timeout_handler` with its argument. -/
inductive Handler where
  | lwipCyclicTimer (cyclic : CyclicTimer)
  | tcpipTcpTimer
  | other (h arg : BitVec 32)
deriving DecidableEq, Repr

/-- `struct sys_timeo`. -/
structure SysTimeo where
  time : BitVec 32
  h : Handler
deriving DecidableEq, Repr

/-- Where `sys_check_timeouts` stands, with the `now` it read on entry. -/
inductive Mode (τ : Type) where
  | main
  | checking (now : τ)
  | handler (now : τ) (h : Handler)
deriving DecidableEq, Repr

/-- The mode once a timeout has been taken off the list: a null handler is not called. -/
def Mode.enter {τ : Type} (now : τ) : Handler → Mode τ
  | .other 0#32 _ => .checking now
  | h => .handler now h

/-- The `now` of the check under way. -/
def Mode.started {τ : Type} : Mode τ → Option τ
  | .main => none
  | .checking now => some now
  | .handler now _ => some now

@[simp] theorem Mode.started_enter {τ : Type} (now : τ) (h : Handler) :
    (Mode.enter now h).started = some now := by
  unfold Mode.enter
  split <;> rfl

/-- The counter, the list, the pool, `current_timeout_due_time`, `tcpip_tcp_timer_active`, whether
`tcp_active_pcbs || tcp_tw_pcbs`, and the timeouts that have expired so far. -/
structure Sys where
  sysNow : BitVec 32
  nextTimeout : List SysTimeo
  mempFree : Nat
  currentTimeoutDueTime : BitVec 32
  tcpipTcpTimerActive : Bool
  pcbs : Bool
  mode : Mode (BitVec 32)
  expired : List SysTimeo
deriving DecidableEq, Repr

/-- `LWIP_MAX_TIMEOUT`. -/
def lwipMaxTimeout : Nat := 0x7fffffff

/-- `TIME_LESS_THAN`. -/
def TimeLessThan (t compareTo : BitVec 32) : Prop := lwipMaxTimeout < (t - compareTo).toNat

instance TimeLessThan.instDecidableRel : DecidableRel TimeLessThan :=
  fun t c => inferInstanceAs (Decidable (lwipMaxTimeout < (t - c).toNat))

/-- The `for` loop of `sys_timeout_abs`, at `t` with the list that follows it. -/
def linkAfter (timeout t : SysTimeo) : List SysTimeo → List SysTimeo
  | [] => [t, timeout]
  | u :: rest =>
    if TimeLessThan timeout.time u.time then t :: timeout :: u :: rest
    else t :: linkAfter timeout u rest

/-- The linking of a new timeout into the list. -/
def link (timeout : SysTimeo) : List SysTimeo → List SysTimeo
  | [] => [timeout]
  | t :: rest =>
    if TimeLessThan timeout.time t.time then timeout :: t :: rest
    else linkAfter timeout t rest

/-- `sys_timeout_abs`. -/
def sysTimeoutAbs (absTime : BitVec 32) (handler : Handler) (s : Sys) : Sys :=
  if s.mempFree = 0 then s
  else
    { s with
      mempFree := s.mempFree - 1
      nextTimeout := link ⟨absTime, handler⟩ s.nextTimeout }

/-- `sys_timeout`. -/
def sysTimeout (msecs : BitVec 32) (handler : Handler) (s : Sys) : Sys :=
  sysTimeoutAbs (s.sysNow + msecs) handler s

/-- The loop of `sys_untimeout`: the list without the first match, if there is one. -/
def unlink (handler : Handler) : List SysTimeo → Option (List SysTimeo)
  | [] => none
  | t :: rest => if t.h = handler then some rest else (unlink handler rest).map (t :: ·)

/-- `sys_untimeout`. -/
def sysUntimeout (handler : Handler) (s : Sys) : Sys :=
  match unlink handler s.nextTimeout with
  | some q => { s with nextTimeout := q, mempFree := s.mempFree + 1 }
  | none => s

/-- `lwip_cyclic_timer`, once `cyclic->handler()` has returned. -/
def lwipCyclicTimer (cyclic : CyclicTimer) (s : Sys) : Sys :=
  let now := s.sysNow
  let interval := BitVec.ofNat 32 cyclic.intervalMs
  let nextTimeoutTime := s.currentTimeoutDueTime + interval
  if TimeLessThan nextTimeoutTime now then
    sysTimeoutAbs (now + interval) (.lwipCyclicTimer cyclic) s
  else sysTimeoutAbs nextTimeoutTime (.lwipCyclicTimer cyclic) s

/-- `tcpip_tcp_timer`, once `tcp_tmr()` has returned. -/
def tcpipTcpTimer (s : Sys) : Sys :=
  if s.pcbs then sysTimeout (BitVec.ofNat 32 tcpTmrInterval) .tcpipTcpTimer s
  else { s with tcpipTcpTimerActive := false }

/-- `tcp_timer_needed`. -/
def tcpTimerNeeded (s : Sys) : Sys :=
  if s.tcpipTcpTimerActive = false ∧ s.pcbs = true then
    sysTimeout (BitVec.ofNat 32 tcpTmrInterval) .tcpipTcpTimer
      { s with tcpipTcpTimerActive := true }
  else s

/-- `TCP_REG` of a PCB, on the active or time-wait list (`pcbs`) or on the bound one. -/
def tcpReg (active : Bool) (s : Sys) : Sys := tcpTimerNeeded { s with pcbs := s.pcbs || active }

/-- `sys_restart_timeouts`. -/
def sysRestartTimeouts (s : Sys) : Sys :=
  match s.nextTimeout with
  | [] => s
  | t :: _ =>
    { s with
      nextTimeout := s.nextTimeout.map fun u => { u with time := u.time - t.time + s.sysNow } }

/-- `sys_timeouts_sleeptime`; `SYS_TIMEOUTS_SLEEPTIME_INFINITE` on an empty list. -/
def sysTimeoutsSleeptime (s : Sys) : BitVec 32 :=
  match s.nextTimeout with
  | [] => 0xFFFFFFFF#32
  | t :: _ => if TimeLessThan t.time s.sysNow then 0 else t.time - s.sysNow

/-- One round of the loop of `sys_check_timeouts`, up to the call of the handler. -/
def checkRound (now : BitVec 32) (s : Sys) : Sys :=
  match s.nextTimeout with
  | [] => { s with mode := .main }
  | tmptimeout :: rest =>
    if TimeLessThan now tmptimeout.time then { s with mode := .main }
    else
      { s with
        nextTimeout := rest
        currentTimeoutDueTime := tmptimeout.time
        mempFree := s.mempFree + 1
        expired := s.expired ++ [tmptimeout]
        mode := .enter now tmptimeout.h }

/-- The end of a handler. -/
def handlerReturn (handler : Handler) (s : Sys) : Sys :=
  match handler with
  | .lwipCyclicTimer cyclic => lwipCyclicTimer cyclic s
  | .tcpipTcpTimer => tcpipTcpTimer s
  | .other _ _ => s

/-- What happens around the list. -/
inductive Event where
  | tick (ms : Nat)
  | sysTimeout (msecs h arg : BitVec 32)
  | sysUntimeout (h arg : BitVec 32)
  | tcpReg (active : Bool)
  | pcbsGone
  | sysRestartTimeouts
  | sysCheckTimeouts
  | round
  | handlerReturn
deriving DecidableEq, Repr

/-- The machine. The list is rebased and a check is begun from the main loop only. -/
def Sys.step (s : Sys) : Event → Sys
  | .tick ms => { s with sysNow := s.sysNow + BitVec.ofNat 32 ms }
  | .sysTimeout msecs h arg => Timeouts.sysTimeout msecs (.other h arg) s
  | .sysUntimeout h arg => Timeouts.sysUntimeout (.other h arg) s
  | .tcpReg active => Timeouts.tcpReg active s
  | .pcbsGone => { s with pcbs := false }
  | .sysRestartTimeouts =>
    match s.mode with
    | .main => Timeouts.sysRestartTimeouts s
    | _ => s
  | .sysCheckTimeouts =>
    match s.mode with
    | .main => { s with mode := .checking s.sysNow }
    | _ => s
  | .round =>
    match s.mode with
    | .checking now => checkRound now s
    | _ => s
  | .handlerReturn =>
    match s.mode with
    | .handler now h => { Timeouts.handlerReturn h s with mode := .checking now }
    | _ => s

/-- `sys_timeouts_init`. -/
def sysTimeoutsInit (s : Sys) : Sys :=
  lwipCyclicTimers.foldl
    (fun s cyclic =>
      sysTimeout (BitVec.ofNat 32 cyclic.intervalMs) (.lwipCyclicTimer cyclic) s) s

/-- The state at reset, with the counter at `sysNow`. -/
def Sys.reset (sysNow : BitVec 32) : Sys where
  sysNow := sysNow
  nextTimeout := []
  mempFree := mempNumSysTimeout
  currentTimeoutDueTime := 0
  tcpipTcpTimerActive := false
  pcbs := false
  mode := .main
  expired := []

/-! ## What the list operations are -/

theorem timeLessThan_iff (t c : BitVec 32) : TimeLessThan t c ↔ wrapLt t c := Iff.rfl

theorem linkAfter_eq (timeout t : SysTimeo) (rest : List SysTimeo) :
    linkAfter timeout t rest =
      t :: rest.orderedInsert (fun a b => TimeLessThan a.time b.time) timeout := by
  induction rest generalizing t with
  | nil => rfl
  | cons u rest ih =>
    rw [linkAfter, List.orderedInsert_cons]
    split_ifs with h
    · rfl
    · rw [ih u]

/-- The three ways of linking are one insertion, before the first timeout that is due later. -/
theorem link_eq (timeout : SysTimeo) (l : List SysTimeo) :
    link timeout l = l.orderedInsert (fun a b => TimeLessThan a.time b.time) timeout := by
  cases l with
  | nil => rfl
  | cons t rest => rw [link, List.orderedInsert_cons, linkAfter_eq]

theorem unlink_eq (handler : Handler) (l : List SysTimeo) :
    unlink handler l =
      if l.any (fun t => t.h == handler) then some (l.eraseP fun t => t.h == handler)
      else none := by
  induction l with
  | nil => rfl
  | cons t rest ih =>
    rw [unlink, ih, List.any_cons, List.eraseP_cons]
    by_cases h : t.h = handler
    · simp [h]
    · simp only [h, if_false, beq_eq_false_iff_ne.mpr h, Bool.false_or]
      split_ifs <;> rfl

theorem checkRound_done {now : BitVec 32} {s : Sys}
    (h : ∀ t ∈ s.nextTimeout.head?, TimeLessThan now t.time) :
    checkRound now s = { s with mode := .main } := by
  unfold checkRound
  split
  · rfl
  · rename_i t rest hq
    rw [if_pos (h t (by rw [hq]; rfl))]

theorem checkRound_expired {now : BitVec 32} {s : Sys} {t : SysTimeo} {rest : List SysTimeo}
    (hq : s.nextTimeout = t :: rest) (h : ¬ TimeLessThan now t.time) :
    checkRound now s =
      { s with
        nextTimeout := rest
        currentTimeoutDueTime := t.time
        mempFree := s.mempFree + 1
        expired := s.expired ++ [t]
        mode := .enter now t.h } := by
  simp only [checkRound, hq, if_neg h]

end Stm32F407.Lwip.Timeouts
