import Stm32F407.Lwip.TimerRounds

/-!
# The timers of the stack itself

`lwip_cyclic_timer` and `tcpip_tcp_timer` put themselves back on the list when their handler is
done, and nothing else does. A timer that finds the pool empty at that moment is gone for good, and
`tcpip_tcp_timer_active` then keeps `tcp_timer_needed` from ever starting the TCP timer again.

* `timers_alive`: as long as at most four timeouts of others are on the list, that never happens:
  every cyclic timer is on the list or in its handler, once, and the TCP timer is so exactly when
  `tcpip_tcp_timer_active` is set. The five cyclic timers, the TCP timer and these four fill the
  pool.
* `cyclic_no_drift`: a cyclic timer whose handler is never late by more than an interval expires on
  the grid of its interval, however late each single check came.
-/

namespace Stm32F407.Lwip.Timeouts

open Stm32F407.Lib

variable {a : Service}

/-! ## No timer is lost -/

/-- How many timeouts of a list have a handler of the kind `p`. -/
def waiting (p : Handler → Bool) (l : List SysTimeo) : Nat := l.countP fun t => p t.h

/-- The handler that runs, if it is of the kind `p`. -/
def Mode.running {τ : Type} (p : Handler → Bool) : Mode τ → Nat
  | .handler _ h => (p h).toNat
  | _ => 0

/-- A handler that is not one of the stack's own. -/
def Handler.isOther : Handler → Bool
  | .other _ _ => true
  | _ => false

/-- How often a handler is on the list or runs. -/
def Sys.pending (h : Handler) (s : Sys) : Nat :=
  waiting (· == h) s.nextTimeout + s.mode.running (· == h)

theorem waiting_link (p : Handler → Bool) (t : SysTimeo) (l : List SysTimeo) :
    waiting p (link t l) = waiting p l + (p t.h).toNat := by
  rw [link_eq, waiting, (List.perm_orderedInsert _ t l).countP_eq, List.countP_cons]
  cases p t.h <;> rfl

theorem waiting_unlink (p : Handler → Bool) {h : Handler} {l l' : List SysTimeo}
    (hu : unlink h l = some l') : waiting p l = waiting p l' + (p h).toNat := by
  induction l generalizing l' with
  | nil => cases hu
  | cons t l ih =>
    rw [unlink] at hu
    split_ifs at hu with ht
    · obtain rfl := Option.some.inj hu
      rw [waiting, List.countP_cons, ht]
      cases p h <;> rfl
    · obtain ⟨m, hm, rfl⟩ := Option.map_eq_some_iff.mp hu
      have := ih hm
      unfold waiting at this ⊢
      rw [List.countP_cons, List.countP_cons, this]
      omega

/-- The list is made up of the cyclic timers, the TCP timer and the others. -/
theorem length_eq_waiting (l : List SysTimeo) :
    l.length = (lwipCyclicTimers.map fun c => waiting (· == .lwipCyclicTimer c) l).sum +
      waiting (· == .tcpipTcpTimer) l + waiting Handler.isOther l := by
  induction l with
  | nil => rfl
  | cons t l ih =>
    rw [List.length_cons, ih]
    unfold waiting
    simp only [List.countP_cons, lwipCyclicTimers, List.map_cons, List.map_nil, List.sum_cons,
      List.sum_nil]
    rcases ht : t.h with c | _ | ⟨f, arg⟩
    · cases c <;> simp [Handler.isOther] <;> omega
    · simp [Handler.isOther]
      omega
    · simp [Handler.isOther]
      omega

/-- What keeps the stack's timers alive. -/
structure Alive (s : Sys) : Prop where
  cyclic : ∀ c, s.pending (.lwipCyclicTimer c) = 1
  tcp : s.pending .tcpipTcpTimer = s.tcpipTcpTimerActive.toNat
  others : waiting Handler.isOther s.nextTimeout ≤ 4
  pool : s.mempFree + s.nextTimeout.length = mempNumSysTimeout

/-- At most four timeouts of others are on the list at a time. -/
def AtMostFour (s : Sys) : Event → Prop
  | .sysTimeout _ _ _ => waiting Handler.isOther s.nextTimeout < 4
  | _ => True

theorem waiting_le_pending (h : Handler) (s : Sys) :
    waiting (· == h) s.nextTimeout ≤ s.pending h := Nat.le_add_right _ _

/-- A handler of the stack that is not on the list finds a free element. -/
theorem Alive.room {s : Sys} (ha : Alive s) {h : Handler} (hh : h.isOther = false)
    (hw : waiting (· == h) s.nextTimeout = 0) : s.mempFree ≠ 0 := by
  have hpool := ha.pool
  have hother := ha.others
  have hlen := length_eq_waiting s.nextTimeout
  have hc : ∀ c, waiting (· == .lwipCyclicTimer c) s.nextTimeout ≤ 1 := fun c =>
    (waiting_le_pending _ s).trans (ha.cyclic c).le
  have htcp : waiting (· == .tcpipTcpTimer) s.nextTimeout ≤ 1 :=
    (waiting_le_pending _ s).trans (ha.tcp.le.trans (Bool.toNat_le _))
  have h1 := hc .ipReassTmr
  have h2 := hc .etharpTmr
  have h3 := hc .dhcpCoarseTmr
  have h4 := hc .dhcpFineTmr
  have h5 := hc .autoipTmr
  simp only [lwipCyclicTimers, List.map_cons, List.map_nil, List.sum_cons, List.sum_nil] at hlen
  have hmax : mempNumSysTimeout = 10 := rfl
  rcases h with c | _ | ⟨f, arg⟩
  · cases c <;> omega
  · omega
  · cases hh

/-- What `sys_timeout_abs` does when there is a free element. -/
theorem sysTimeoutAbs_room {s : Sys} (hroom : s.mempFree ≠ 0) (time : BitVec 32) (h : Handler) :
    sysTimeoutAbs time h s =
      { s with mempFree := s.mempFree - 1, nextTimeout := link ⟨time, h⟩ s.nextTimeout } :=
  if_neg hroom

theorem length_link (t : SysTimeo) (l : List SysTimeo) : (link t l).length = l.length + 1 := by
  rw [link_eq, List.orderedInsert_length]

theorem beq_toNat_self (h : Handler) : (h == h).toNat = 1 := by
  rw [beq_self_eq_true]
  rfl

theorem beq_toNat_ne {g h : Handler} (hne : g ≠ h) : (g == h).toNat = 0 := by
  rw [beq_eq_false_iff_ne.mpr hne]
  rfl

/-- Taking a timeout into its handler keeps each of the stack's handlers where it counts. -/
theorem running_enter {τ : Type} (now : τ) {g h : Handler} (hh : h.isOther = false) :
    (Mode.enter now g).running (· == h) = (g == h).toNat := by
  unfold Mode.enter
  split
  · refine (beq_toNat_ne fun he => ?_).symm
    rw [← he] at hh
    cases hh
  · rfl

/-- A handler of the stack that has been called goes back on the list. -/
theorem Alive.rearm {s : Sys} (ha : Alive s) {now : BitVec 32} {h : Handler}
    (hm : s.mode = .handler now h) (hh : h.isOther = false) (time : BitVec 32) :
    Alive { sysTimeoutAbs time h s with mode := .checking now } := by
  have hrun : ∀ g, s.mode.running (· == g) = (h == g).toNat := fun g => by rw [hm]; rfl
  have hle : s.pending h ≤ 1 := by
    rcases h with c | _ | ⟨f, arg⟩
    · exact (ha.cyclic c).le
    · exact ha.tcp.le.trans (Bool.toNat_le _)
    · cases hh
  have hw : waiting (· == h) s.nextTimeout = 0 := by
    have := hrun h
    rw [beq_toNat_self] at this
    unfold Sys.pending at hle
    omega
  have hroom := ha.room hh hw
  rw [sysTimeoutAbs_room hroom]
  -- the handler moves from the mode to the list
  have hpend : ∀ g, Sys.pending g { s with
      mempFree := s.mempFree - 1, nextTimeout := link ⟨time, h⟩ s.nextTimeout,
      mode := .checking now } = s.pending g := by
    intro g
    show waiting (· == g) (link ⟨time, h⟩ s.nextTimeout) + 0 = waiting _ _ + _
    rw [waiting_link, hrun g]
    rfl
  refine ⟨fun c => (hpend _).trans (ha.cyclic c), (hpend _).trans ha.tcp, ?_, ?_⟩
  · show waiting _ (link _ _) ≤ 4
    rw [waiting_link]
    show _ + h.isOther.toNat ≤ 4
    rw [hh]
    exact ha.others
  · have := ha.pool
    show s.mempFree - 1 + (link _ _).length = _
    rw [length_link]
    omega

theorem Alive.handlerReturn {s : Sys} (ha : Alive s) {now : BitVec 32} {h : Handler}
    (hm : s.mode = .handler now h) :
    Alive { handlerReturn h s with mode := .checking now } := by
  unfold Timeouts.handlerReturn
  rcases h with c | _ | ⟨f, arg⟩
  · simp only [lwipCyclicTimer]
    split_ifs
    · exact ha.rearm hm rfl _
    · exact ha.rearm hm rfl _
  · simp only [tcpipTcpTimer]
    split_ifs
    · exact ha.rearm hm rfl _
    · -- the timer stops: it is neither on the list nor running any more
      have hrun : ∀ g, s.mode.running (· == g) = (Handler.tcpipTcpTimer == g).toNat := fun g => by
        rw [hm]; rfl
      have htcp := ha.tcp
      unfold Sys.pending at htcp
      have hself := hrun .tcpipTcpTimer
      rw [beq_toNat_self] at hself
      have hle := Bool.toNat_le s.tcpipTcpTimerActive
      refine ⟨fun c => ?_, ?_, ha.others, ha.pool⟩
      · have := ha.cyclic c
        unfold Sys.pending at this
        rw [hrun, beq_toNat_ne (by simp)] at this
        exact this
      · show waiting _ s.nextTimeout + 0 = 0
        omega
  · have hrun : ∀ g : Handler, g.isOther = false → s.mode.running (· == g) = 0 := by
      intro g hg
      rw [hm]
      exact beq_toNat_ne fun he => by rw [← he] at hg; cases hg
    refine ⟨fun c => ?_, ?_, ha.others, ha.pool⟩
    · have := ha.cyclic c
      unfold Sys.pending at this
      rw [hrun _ rfl] at this
      exact this
    · have := ha.tcp
      unfold Sys.pending at this
      rw [hrun _ rfl] at this
      exact this

theorem Alive.checkRound {s : Sys} (ha : Alive s) {now : BitVec 32}
    (hm : s.mode = .checking now) : Alive (checkRound now s) := by
  have hidle : ∀ g : Handler, s.mode.running (· == g) = 0 := fun g => by rw [hm]; rfl
  by_cases hdone : ∀ t ∈ s.nextTimeout.head?, TimeLessThan now t.time
  · rw [checkRound_done hdone]
    refine ⟨fun c => ?_, ?_, ha.others, ha.pool⟩
    · rw [← ha.cyclic c, Sys.pending, Sys.pending, hidle]
      rfl
    · rw [← ha.tcp, Sys.pending, Sys.pending, hidle]
      rfl
  · cases hq : s.nextTimeout with
    | nil => exact absurd (by rw [hq]; simp) hdone
    | cons t rest =>
      have ht : ¬ TimeLessThan now t.time := by
        rw [hq] at hdone
        simpa using hdone
      have hpend : ∀ g : Handler, g.isOther = false →
          waiting (· == g) rest + (Mode.enter now t.h).running (· == g) = s.pending g := by
        intro g hg
        rw [running_enter now hg, Sys.pending, hidle, hq, waiting, waiting, List.countP_cons]
        cases t.h == g <;> rfl
      rw [checkRound_expired hq ht]
      refine ⟨fun c => (hpend _ rfl).trans (ha.cyclic c), (hpend _ rfl).trans ha.tcp, ?_, ?_⟩
      · have := ha.others
        rw [hq, waiting, List.countP_cons] at this
        exact (Nat.le_add_right _ _).trans this
      · have := ha.pool
        rw [hq, List.length_cons] at this
        show s.mempFree + 1 + rest.length = _
        omega

/-- A timeout of someone else leaves the stack's own timers alone. -/
theorem Alive.schedule {s : Sys} (ha : Alive s) (time f arg : BitVec 32)
    (hfew : waiting Handler.isOther s.nextTimeout < 4) :
    Alive (sysTimeoutAbs time (.other f arg) s) := by
  unfold sysTimeoutAbs
  split_ifs with hfree
  · exact ha
  · have hpend : ∀ g : Handler, g.isOther = false →
        waiting (· == g) (link ⟨time, .other f arg⟩ s.nextTimeout) =
          waiting (· == g) s.nextTimeout := by
      intro g hg
      rw [waiting_link]
      show _ + (Handler.other f arg == g).toNat = _
      rw [beq_toNat_ne fun he => by rw [← he] at hg; cases hg]
      rfl
    refine ⟨fun c => ?_, ?_, ?_, ?_⟩
    · rw [← ha.cyclic c, Sys.pending, Sys.pending, hpend _ rfl]
    · rw [← ha.tcp, Sys.pending, Sys.pending, hpend _ rfl]
    · rw [waiting_link]
      exact hfew
    · have := ha.pool
      show s.mempFree - 1 + (link _ _).length = _
      rw [length_link]
      omega

theorem Alive.sysUntimeout {s : Sys} (ha : Alive s) (f arg : BitVec 32) :
    Alive (sysUntimeout (.other f arg) s) := by
  unfold Timeouts.sysUntimeout
  cases hu : unlink (.other f arg) s.nextTimeout with
  | none => exact ha
  | some q =>
    have hpend : ∀ g : Handler, g.isOther = false →
        waiting (· == g) q = waiting (· == g) s.nextTimeout := by
      intro g hg
      rw [waiting_unlink _ hu, beq_toNat_ne fun he => by rw [← he] at hg; cases hg]
      rfl
    have hother := waiting_unlink Handler.isOther hu
    -- every handler counts here
    have hlen : s.nextTimeout.length = q.length + 1 := by
      simpa [waiting] using waiting_unlink (fun _ => true) hu
    refine ⟨fun c => ?_, ?_, ?_, ?_⟩
    · rw [← ha.cyclic c, Sys.pending, Sys.pending, hpend _ rfl]
    · rw [← ha.tcp, Sys.pending, Sys.pending, hpend _ rfl]
    · have := ha.others
      show waiting _ q ≤ 4
      omega
    · have := ha.pool
      show s.mempFree + 1 + q.length = _
      omega

theorem Alive.tcpReg {s : Sys} (ha : Alive s) (active : Bool) : Alive (tcpReg active s) := by
  unfold Timeouts.tcpReg tcpTimerNeeded
  split_ifs with hneeded
  · -- the timer is off, so it is not on the list, and there is room for it
    have hoff : s.tcpipTcpTimerActive = false := hneeded.1
    have htcp := ha.tcp
    rw [hoff, Sys.pending] at htcp
    have hw : waiting (· == .tcpipTcpTimer) s.nextTimeout = 0 :=
      Nat.eq_zero_of_add_eq_zero_right htcp
    have hroom := ha.room rfl hw
    unfold Timeouts.sysTimeout
    rw [sysTimeoutAbs_room (by exact hroom)]
    refine ⟨fun c => ?_, ?_, ?_, ?_⟩
    · rw [← ha.cyclic c, Sys.pending, Sys.pending]
      show waiting _ (link _ s.nextTimeout) + _ = _
      rw [waiting_link]
      show _ + (Handler.tcpipTcpTimer == .lwipCyclicTimer c).toNat + _ = _
      rw [beq_toNat_ne (by simp)]
      rfl
    · show waiting _ (link _ s.nextTimeout) + _ = 1
      rw [waiting_link, hw]
      show 0 + (Handler.tcpipTcpTimer == .tcpipTcpTimer).toNat + s.mode.running _ = 1
      rw [beq_toNat_self, Nat.eq_zero_of_add_eq_zero_left htcp]
    · show waiting _ (link _ s.nextTimeout) ≤ 4
      rw [waiting_link]
      exact ha.others
    · have := ha.pool
      show s.mempFree - 1 + (link _ s.nextTimeout).length = _
      rw [length_link]
      omega
  · exact { ha with }

/-- **No event loses a timer of the stack.** -/
theorem Alive.step {s : Sys} (ha : Alive s) {e : Event} (hfew : AtMostFour s e) :
    Alive (s.step e) := by
  cases e with
  | tick ms => exact { ha with }
  | sysTimeout msecs h arg => exact ha.schedule _ h arg hfew
  | sysUntimeout h arg => exact ha.sysUntimeout h arg
  | tcpReg active => exact ha.tcpReg active
  | pcbsGone => exact { ha with }
  | sysRestartTimeouts =>
    rcases hm : s.mode with _ | now | ⟨now, h⟩ <;> simp only [Sys.step, hm]
    · unfold Timeouts.sysRestartTimeouts
      split
      · exact ha
      · -- the handlers stay where they are
        have hw : ∀ p (f : SysTimeo → BitVec 32),
            waiting p (s.nextTimeout.map fun u => { u with time := f u }) =
              waiting p s.nextTimeout := fun p f => by
          rw [waiting, List.countP_map]
          rfl
        refine ⟨fun c => ?_, ?_, ?_, ?_⟩
        · rw [← ha.cyclic c, Sys.pending, Sys.pending, hw]
        · rw [← ha.tcp, Sys.pending, Sys.pending, hw]
        · rw [hw]
          exact ha.others
        · rw [List.length_map]
          exact ha.pool
    · exact ha
    · exact ha
  | sysCheckTimeouts =>
    rcases hm : s.mode with _ | now | ⟨now, h⟩ <;> simp only [Sys.step, hm]
    · have hpend : ∀ g, Sys.pending g { s with mode := .checking s.sysNow } = s.pending g := by
        intro g
        rw [Sys.pending, Sys.pending, hm]
        rfl
      exact ⟨fun c => (hpend _).trans (ha.cyclic c), (hpend _).trans ha.tcp, ha.others, ha.pool⟩
    · exact ha
    · exact ha
  | round =>
    rcases hm : s.mode with _ | now | ⟨now, h⟩ <;> simp only [Sys.step, hm]
    · exact ha
    · exact ha.checkRound hm
    · exact ha
  | handlerReturn =>
    rcases hm : s.mode with _ | now | ⟨now, h⟩ <;> simp only [Sys.step, hm]
    · exact ha
    · exact ha
    · exact ha.handlerReturn hm

/-- What scheduling a list of cyclic timers from the main loop does. -/
theorem init_fold (l : List CyclicTimer) {s : Sys} (hroom : l.length ≤ s.mempFree) :
    let s' := l.foldl (fun s cyclic =>
      sysTimeout (BitVec.ofNat 32 cyclic.intervalMs) (.lwipCyclicTimer cyclic) s) s
    (∀ p, waiting p s'.nextTimeout =
        waiting p s.nextTimeout + (l.map fun c => (p (.lwipCyclicTimer c)).toNat).sum) ∧
      s'.mempFree + s'.nextTimeout.length = s.mempFree + s.nextTimeout.length ∧
      s'.mode = s.mode ∧ s'.tcpipTcpTimerActive = s.tcpipTcpTimerActive := by
  induction l generalizing s with
  | nil => exact ⟨fun p => rfl, rfl, rfl, rfl⟩
  | cons c l ih =>
    rw [List.length_cons] at hroom
    have hne : s.mempFree ≠ 0 := by omega
    have hstep := sysTimeoutAbs_room hne (s.sysNow + BitVec.ofNat 32 c.intervalMs)
      (.lwipCyclicTimer c)
    rw [List.foldl_cons]
    unfold Timeouts.sysTimeout at ih ⊢
    rw [hstep]
    obtain ⟨hw, hpool, hmode, hactive⟩ := ih (s := { s with
      mempFree := s.mempFree - 1
      nextTimeout := link ⟨s.sysNow + BitVec.ofNat 32 c.intervalMs, .lwipCyclicTimer c⟩
        s.nextTimeout }) (Nat.le_sub_of_add_le hroom)
    refine ⟨fun p => ?_, ?_, hmode, hactive⟩
    · rw [hw p, waiting_link, List.map_cons, List.sum_cons]
      exact Nat.add_assoc _ _ _
    · rw [hpool]
      show s.mempFree - 1 + (link _ _).length = _
      rw [length_link]
      omega

theorem Alive.init (t : Nat) : Alive (Sys.init t) := by
  have hroom : lwipCyclicTimers.length ≤ mempNumSysTimeout := by decide
  obtain ⟨hw, hpool, hmode, hactive⟩ :=
    @init_fold lwipCyclicTimers (.reset (BitVec.ofNat 32 t)) hroom
  refine ⟨fun c => ?_, ?_, ?_, hpool⟩
  · unfold Sys.pending Sys.init sysTimeoutsInit
    rw [hw, hmode]
    cases c <;> rfl
  · unfold Sys.pending Sys.init sysTimeoutsInit
    rw [hw, hmode, hactive]
    rfl
  · unfold Sys.init sysTimeoutsInit
    rw [hw]
    exact Nat.zero_le 4

/-- **The stack's timers stay alive**: in every run in which the others never have more than four
timeouts on the list, each cyclic timer is on the list or in its handler, exactly once, and the TCP
timer is exactly when it is marked active; the pool then has an element for each of them. -/
theorem timers_alive (t : Nat) (es : List Event)
    (hfew : AllSteps Sys.step AtMostFour (Sys.init t) es) :
    let s := run Sys.step (Sys.init t) es
    (∀ c, s.pending (.lwipCyclicTimer c) = 1) ∧
      s.pending .tcpipTcpTimer = s.tcpipTcpTimerActive.toNat ∧
      ∀ h : Handler, h.isOther = false → s.pending h = 0 ∨ s.mode.running (· == h) = 1 →
        s.mempFree ≠ 0 := by
  intro s
  have ha : Alive s := run_invariant (fun _ _ ha hok => ha.step hok) (Alive.init t) hfew
  refine ⟨ha.cyclic, ha.tcp, fun h hh hoff => ha.room hh ?_⟩
  unfold Sys.pending at hoff
  rcases hoff with hoff | hrun
  · exact Nat.eq_zero_of_add_eq_zero_right hoff
  · rcases h with c | _ | ⟨f, arg⟩
    · have := ha.cyclic c
      unfold Sys.pending at this
      omega
    · have := ha.tcp.trans_le (Bool.toNat_le _)
      unfold Sys.pending at this
      omega
    · cases hh

instance AtMostFour.instDecidable (s : Sys) : DecidablePred (AtMostFour s)
  | .sysTimeout _ _ _ => inferInstanceAs (Decidable (waiting Handler.isOther s.nextTimeout < 4))
  | .tick _ => inferInstanceAs (Decidable True)
  | .sysUntimeout _ _ => inferInstanceAs (Decidable True)
  | .tcpReg _ => inferInstanceAs (Decidable True)
  | .pcbsGone => inferInstanceAs (Decidable True)
  | .sysRestartTimeouts => inferInstanceAs (Decidable True)
  | .sysCheckTimeouts => inferInstanceAs (Decidable True)
  | .round => inferInstanceAs (Decidable True)
  | .handlerReturn => inferInstanceAs (Decidable True)

/-- A connection, four timeouts of others, and the TCP timer in its handler. -/
def fullRun : List Event :=
  [.tcpReg true, .sysTimeout 40 1 0, .sysTimeout 40 2 0, .sysTimeout 40 3 0, .sysTimeout 40 4 0,
    .tick 30, .sysCheckTimeouts, .round]

theorem timers_alive_full : (run Sys.step (Sys.init 7) fullRun).pending .tcpipTcpTimer = 1 ∧
    (run Sys.step (Sys.init 7) fullRun).mempFree ≠ 0 :=
  ⟨(timers_alive 7 fullRun (by decide)).2.1.trans (by decide),
    (timers_alive 7 fullRun (by decide)).2.2 .tcpipTcpTimer rfl (by decide)⟩

/-- A fifth timeout of another, scheduled by a handler, takes the element a cyclic timer needs. -/
example : (run Sys.step (Sys.init 0) [.tcpReg true, .sysTimeout 200 1 0, .sysTimeout 200 2 0,
    .sysTimeout 200 3 0, .sysTimeout 200 4 0, .tick 100, .sysCheckTimeouts, .round, .handlerReturn,
    .round, .sysTimeout 200 5 0, .handlerReturn]).pending (.lwipCyclicTimer .autoipTmr) = 0 := by
  decide

/-! ## No drift -/

/-- Nobody rebases the list, and no cyclic handler ends later than its next due time. -/
def OnTime (a : Service) : Event → Prop
  | .sysRestartTimeouts => False
  | .handlerReturn =>
    match a.mode with
    | .handler _ (.lwipCyclicTimer c) => a.now ≤ a.due + c.intervalMs
    | _ => True
  | _ => True

instance OnTime.instDecidable (a : Service) : DecidablePred (OnTime a)
  | .sysRestartTimeouts => inferInstanceAs (Decidable False)
  | .handlerReturn =>
    show Decidable (match a.mode with
        | .handler _ (.lwipCyclicTimer c) => a.now ≤ a.due + c.intervalMs
        | _ => True) from
      match a.mode with
      | .handler _ (.lwipCyclicTimer c) =>
        inferInstanceAs (Decidable (a.now ≤ a.due + c.intervalMs))
      | .handler _ .tcpipTcpTimer => inferInstanceAs (Decidable True)
      | .handler _ (.other _ _) => inferInstanceAs (Decidable True)
      | .main => inferInstanceAs (Decidable True)
      | .checking _ => inferInstanceAs (Decidable True)
  | .sysTimeout _ _ _ => inferInstanceAs (Decidable True)
  | .tick _ => inferInstanceAs (Decidable True)
  | .sysUntimeout _ _ => inferInstanceAs (Decidable True)
  | .tcpReg _ => inferInstanceAs (Decidable True)
  | .pcbsGone => inferInstanceAs (Decidable True)
  | .sysCheckTimeouts => inferInstanceAs (Decidable True)
  | .round => inferInstanceAs (Decidable True)

/-- The due times at which a cyclic timer has expired. -/
def Service.dueTimes (c : CyclicTimer) (a : Service) : List Nat :=
  ((a.expired.map Prod.fst).filter fun e => e.h == .lwipCyclicTimer c).map Entry.due

/-- The timer is on the grid that starts at `t`: so far, in its handler and on the list. -/
structure Grid (t : Nat) (c : CyclicTimer) (a : Service) : Prop where
  so_far : a.dueTimes c =
    (List.range (a.dueTimes c).length).map fun k => t + (k + 1) * c.intervalMs
  next : ∀ e ∈ a.queue, e.h = .lwipCyclicTimer c →
    e.due = t + ((a.dueTimes c).length + 1) * c.intervalMs
  running : ∀ now, a.mode = .handler now (.lwipCyclicTimer c) →
    a.due = t + (a.dueTimes c).length * c.intervalMs

variable {t : Nat} {c : CyclicTimer}

/-- A new entry that is another handler's, or on the grid, keeps the timer on the grid. -/
theorem Grid.schedule (hg : Grid t c a) {due : Nat} {h : Handler}
    (hh : h = .lwipCyclicTimer c → due = t + ((a.dueTimes c).length + 1) * c.intervalMs) :
    Grid t c (a.schedule due h) := by
  obtain ⟨-, hd, -, -, hm, he, -⟩ := schedule_frame due h a
  have htimes : (a.schedule due h).dueTimes c = a.dueTimes c := by
    unfold Service.dueTimes
    rw [he]
  refine ⟨htimes ▸ hg.so_far, fun e hmem heq => ?_, fun now hmode => ?_⟩
  · rw [htimes]
    rcases schedule_mem hmem with hmem | rfl
    · exact hg.next e hmem heq
    · exact hh heq
  · rw [htimes, hd]
    exact hg.running now (hm ▸ hmode)

theorem Grid.finish (hg : Grid t c a) {now : Nat} {h : Handler} (hm : a.mode = .handler now h)
    (hok : OnTime a .handlerReturn) : Grid t c { a.finish h with mode := .checking now } := by
  have hf : Grid t c (a.finish h) := by
    unfold Service.finish
    rcases h with c' | _ | ⟨f, arg⟩
    · unfold OnTime at hok
      rw [hm] at hok
      simp only [Service.again, if_neg (Nat.not_lt.mpr hok)]
      refine hg.schedule fun heq => ?_
      obtain rfl : c' = c := Handler.lwipCyclicTimer.inj heq
      rw [hg.running now hm, Nat.add_mul, Nat.one_mul, Nat.add_assoc]
    · simp only
      split_ifs
      · exact hg.schedule fun heq => by cases heq
      · exact { hg with }
    · exact hg
  exact { hf with running := fun _ h => by cases h }

/-- The timer is on the list at most once, so what is left after it has been taken off is not it. -/
theorem Grid.round (hg : Grid t c a) {now : Nat} {s : Sys} (hr : Refines s a) (ha : Alive s) :
    Grid t c (a.round now) := by
  obtain ⟨-, hround⟩ | ⟨x, rest, hq, -, hround⟩ := round_cases now a
  · rw [hround]
    exact { hg with running := fun _ h => by cases h }
  · rw [hround]
    have hin : ∀ e ∈ rest, e ∈ a.queue := fun e he => hq ▸ List.mem_cons_of_mem x he
    by_cases hx : x.h = .lwipCyclicTimer c
    · have hdue := hg.next x (hq ▸ List.mem_cons_self) hx
      have htimes : Service.dueTimes c { a with
          queue := rest, due := x.due, expired := a.expired ++ [(x, a.now)],
          mode := .enter now x.h } = a.dueTimes c ++ [x.due] := by
        simp [Service.dueTimes, hx]
      have hnone : ∀ e ∈ rest, e.h ≠ .lwipCyclicTimer c := by
        intro e he heq
        have hle := (waiting_le_pending (.lwipCyclicTimer c) s).trans (ha.cyclic c).le
        rw [hr.nextTimeout, hq, waiting, List.countP_map, List.countP_cons_of_pos (by simpa
          [Entry.stored] using hx)] at hle
        have hpos : 0 < rest.countP ((fun t => t.h == .lwipCyclicTimer c) ∘ Entry.stored) :=
          List.countP_pos_iff.mpr ⟨e, he, by simpa [Entry.stored] using heq⟩
        omega
      refine ⟨?_, fun e he heq => absurd heq (hnone e he), fun _ _ => ?_⟩
      · rw [htimes, List.length_append, List.length_singleton, List.range_succ, List.map_append,
          ← hg.so_far, hdue]
        rfl
      · rw [htimes, List.length_append, List.length_singleton]
        exact hdue
    · have htimes : Service.dueTimes c { a with
          queue := rest, due := x.due, expired := a.expired ++ [(x, a.now)],
          mode := .enter now x.h } = a.dueTimes c := by
        simp [Service.dueTimes, hx]
      refine ⟨htimes ▸ hg.so_far, fun e he heq => ?_, fun n hm => ?_⟩
      · rw [htimes]
        exact hg.next e (hin e he) heq
      · have hm' : Mode.enter now x.h = .handler n (.lwipCyclicTimer c) := hm
        unfold Mode.enter at hm'
        split at hm'
        · cases hm'
        · injection hm' with _ hh
          exact absurd hh hx

theorem Grid.step (hg : Grid t c a) {s : Sys} (hr : Refines s a) (ha : Alive s) {e : Event}
    (hok : OnTime a e) : Grid t c (a.step e) := by
  cases e with
  | tick ms => exact { hg with }
  | sysTimeout msecs h arg => exact hg.schedule fun heq => by cases heq
  | sysUntimeout h arg =>
    exact { hg with next := fun e he heq => hg.next e (List.eraseP_subset he) heq }
  | tcpReg active =>
    show Grid t c (a.tcpReg active)
    unfold Service.tcpReg
    have hg' : ∀ b, Grid t c { a with pcbs := a.pcbs || active, active := b } :=
      fun b => { hg with }
    split_ifs
    · exact (hg' true).schedule fun heq => by cases heq
    · exact hg' a.active
  | pcbsGone => exact { hg with }
  | sysRestartTimeouts => cases hok
  | sysCheckTimeouts =>
    rcases hm : a.mode with _ | now | ⟨now, h⟩ <;> simp only [Service.step, hm]
    · exact { hg with running := fun _ h => by cases h }
    · exact hg
    · exact hg
  | round =>
    rcases hm : a.mode with _ | now | ⟨now, h⟩ <;> simp only [Service.step, hm]
    · exact hg
    · exact hg.round hr ha
    · exact hg
  | handlerReturn =>
    rcases hm : a.mode with _ | now | ⟨now, h⟩ <;> simp only [Service.step, hm]
    · exact hg
    · exact hg
    · exact hg.finish hm hok

theorem Grid.init (t : Nat) (c : CyclicTimer) : Grid t c (Service.init t) := by
  -- the timers are scheduled one interval from the start, and none has expired
  have hfold : ∀ (l : List CyclicTimer) (a : Service), a.now = t → a.expired = [] →
      Grid t c a → Grid t c (l.foldl (fun a cyclic =>
        a.schedule (a.now + cyclic.intervalMs) (.lwipCyclicTimer cyclic)) a) := by
    intro l
    induction l with
    | nil => exact fun a _ _ hg => hg
    | cons c' l ih =>
      intro a hnow hexp hg
      obtain ⟨hn, -, -, -, -, he, -⟩ :=
        schedule_frame (a.now + c'.intervalMs) (.lwipCyclicTimer c') a
      refine ih _ (hn.trans hnow) (he.trans hexp) (hg.schedule fun heq => ?_)
      obtain rfl : c' = c := Handler.lwipCyclicTimer.inj heq
      rw [hnow, Service.dueTimes, hexp, List.map_nil, List.filter_nil, List.map_nil,
        List.length_nil, Nat.zero_add, Nat.one_mul]
  exact hfold lwipCyclicTimers _ rfl rfl
    ⟨rfl, fun e he => absurd he List.not_mem_nil, fun _ h => by cases h⟩

/-- **Cyclic timers do not drift**: in every timely run in which nobody rebases the list, the others
keep to four timeouts and no handler of a cyclic timer ends after its next due time, the `k`-th time
a cyclic timer expires is that of `k` intervals after the start. -/
theorem cyclic_no_drift (t : Nat) (es : List Event) (c : CyclicTimer)
    (ht : AllSteps Service.step Timely (Service.init t) es)
    (hon : AllSteps Service.step OnTime (Service.init t) es)
    (hfew : AllSteps Sys.step AtMostFour (Sys.init t) es) :
    let own := (run Sys.step (Sys.init t) es).expired.filter fun u => u.h == .lwipCyclicTimer c
    own = (List.range own.length).map fun k =>
      ⟨BitVec.ofNat 32 (t + (k + 1) * c.intervalMs), .lwipCyclicTimer c⟩ := by
  have hrun : ∀ (es : List Event) (s : Sys) (a : Service), Together s a → Alive s → Grid t c a →
      AllSteps Service.step Timely a es → AllSteps Service.step OnTime a es →
      AllSteps Sys.step AtMostFour s es → Grid t c (run Service.step a es) := by
    intro es
    induction es with
    | nil => exact fun _ _ _ _ hg _ _ _ => hg
    | cons e es ih =>
      intro s a h ha hg ht hon hfew
      exact ih _ _ ⟨h.kept.step e, h.window.step h.kept ht.1,
        h.refines.step h.window h.kept ht.1⟩ (ha.step hfew.1) (hg.step h.refines ha hon.1)
        ht.2 hon.2 hfew.2
  have hgrid := hrun es _ _ (Together.init t) (Alive.init t) (Grid.init t c) ht hon hfew
  have hexp := (run_together t ht).refines.expired
  -- the timer's expired timeouts are its due times, as stored
  have hown : (run Sys.step (Sys.init t) es).expired.filter (fun u => u.h == .lwipCyclicTimer c) =
      ((run Service.step (Service.init t) es).dueTimes c).map fun d =>
        (⟨BitVec.ofNat 32 d, .lwipCyclicTimer c⟩ : SysTimeo) := by
    rw [hexp]
    unfold Service.dueTimes
    generalize (run Service.step (Service.init t) es).expired = l
    induction l with
    | nil => rfl
    | cons x l ih =>
      simp only [List.map_cons, List.filter_cons]
      by_cases hx : x.1.h = .lwipCyclicTimer c
      · simp only [Entry.stored, hx, beq_self_eq_true, if_true, List.map_cons]
        exact congrArg _ ih
      · simp only [Entry.stored, beq_eq_false_iff_ne.mpr hx]
        exact ih
  intro own
  show own = _
  have hlen : own.length = ((run Service.step (Service.init t) es).dueTimes c).length := by
    show (List.filter _ _).length = _
    rw [hown, List.length_map]
  rw [hlen]
  show List.filter _ _ = _
  rw [hown]
  conv_lhs => rw [hgrid.so_far]
  rw [List.map_map]
  rfl

/-- Two checks that come late by 30 and 40 ms, with a handler that takes 20 ms. -/
def lateRun : List Event :=
  [.tick 130, .sysCheckTimeouts, .round, .tick 20, .handlerReturn, .round, .tick 90,
    .sysCheckTimeouts, .round, .handlerReturn, .round]

theorem cyclic_no_drift_late :
    (run Sys.step (Sys.init 0) lateRun).expired.filter
        (fun u => u.h == .lwipCyclicTimer .autoipTmr) =
      [⟨100, .lwipCyclicTimer .autoipTmr⟩, ⟨200, .lwipCyclicTimer .autoipTmr⟩] :=
  (cyclic_no_drift 0 lateRun .autoipTmr (by decide) (by decide) (by decide)).trans (by decide)

end Stm32F407.Lwip.Timeouts
