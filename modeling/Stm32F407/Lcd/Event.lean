import Mathlib.Algebra.Order.Ring.Nat
import Mathlib.Logic.Function.Basic

/-!
# The LCD event queues: `tftlcd_event.c`

Model of the two event queues of the display: registration (`TFTLCD_CycleEventRegister`,
`TFTLCD_OnceEventRegister` and the searches for a slot), the change of a priority
(`TFTLCD_SetOnceEventPriority`, `TFTLCD_SetCycleEventPriority`) and one pass of the dispatcher
(`TFTLCD_EventProcess`).

* An event object is known by its address; the queues are arrays of pointers, `none` is `NULL`.
* A function pointer is an address too. What a callback does when it is called is a parameter of the
  pass (`Env`): the list of the statuses it writes. Callbacks do not touch the queues.
* The once objects' history is kept in a trace: the statuses that callbacks and users write, the
  start of each `OnFunc`, and the dispatcher's own write of `EVENT_STATE_INACTIVE`. The calls of the
  cycle objects' `OnFunc` are recorded by the object.
* `UINT16` is `unsigned int`, 32 bits wide.
-/

namespace Stm32F407.Lcd

/-- `EVENT_STATE_INACTIVE`, `EVENT_STATE_ACTIVE` and `EVENT_STATE_LOGOUT`. -/
inductive EventState where
  | inactive
  | active
  | logout
deriving DecidableEq, Repr

/-- The value of the constant. -/
def EventState.toNat : EventState → Nat
  | .inactive => 0
  | .active => 1
  | .logout => 2

/-- `CYCLE_EVENT_QUEUE_NUM`. -/
def cycleEventQueueNum : Nat := 4

/-- `ONCE_EVENT_QUEUE_NUM`. -/
def onceEventQueueNum : Nat := 5

/-- `EVENT_CYCLE_CNT_VALUE`. -/
def eventCycleCntValue : Nat := 0xFFFF

/-- `CycleEventType`. -/
structure CycleEvent where
  eventNumber : Nat
  eventStatus : EventState
  eventInitCtn : Nat
  eventPeriodCnt : Nat
  onFunc : Nat

/-- `OnceEventType`. -/
structure OnceEvent where
  eventNumber : Nat
  eventStatus : EventState
  onFunc : Nat
  onCbFunc : Nat

/-- What happens to a once object: a callback or a user writes its status, its `OnFunc` is called,
or the dispatcher sets it to `EVENT_STATE_INACTIVE`, `old` being the status it replaces. -/
inductive Act where
  | write (o : Nat) (st : EventState)
  | start (o : Nat)
  | clear (o : Nat) (old : EventState)

/-- The two queues, the event objects, `EventCycleCnt`, the history of the once objects, and the
cycle objects whose `OnFunc` was called, in order. -/
structure TftLcd where
  cycleEventQueue : Nat → Option Nat
  onceEventQueue : Nat → Option Nat
  cycle : Nat → CycleEvent
  once : Nat → OnceEvent
  eventCycleCnt : Nat
  trace : List Act
  cycleCalls : List Nat

/-! ## Registration -/

/-- The search of `_TFTLCD_GetCycleEQNumber` and `_TFTLCD_GetOnceEQNumber`, downwards from
`eventIndex`: it compares the `EventNumber` of the object in the slot with `EVENT_STATE_LOGOUT`. -/
def getEQNumber (queue : Nat → Option Nat) (eventNumber : Nat → Nat) : Nat → Nat
  | 0 => 0
  | i + 1 =>
    match queue i with
    | none => i + 1
    | some o =>
      if eventNumber o = EventState.logout.toNat then i + 1 else getEQNumber queue eventNumber i

/-- `_TFTLCD_GetCycleEQNumber`. -/
def tftlcdGetCycleEQNumber (s : TftLcd) : Nat :=
  getEQNumber s.cycleEventQueue (fun o => (s.cycle o).eventNumber) cycleEventQueueNum

/-- `_TFTLCD_GetOnceEQNumber`. -/
def tftlcdGetOnceEQNumber (s : TftLcd) : Nat :=
  getEQNumber s.onceEventQueue (fun o => (s.once o).eventNumber) onceEventQueueNum

/-- `TFTLCD_CycleEventRegister`. -/
def tftlcdCycleEventRegister (onFunc periodCnt pEventObj : Nat) (s : TftLcd) : Bool × TftLcd :=
  let eventNumber := tftlcdGetCycleEQNumber s
  if eventNumber = 0 then (false, s)
  else
    (true, { s with
      cycle := Function.update s.cycle pEventObj
        { eventStatus := .inactive
          onFunc := onFunc
          eventNumber := eventNumber
          eventInitCtn := 0
          eventPeriodCnt := periodCnt }
      cycleEventQueue := Function.update s.cycleEventQueue (eventNumber - 1) (some pEventObj) })

/-- `TFTLCD_OnceEventRegister`. -/
def tftlcdOnceEventRegister (onFunc onCbFunc pEventObj : Nat) (s : TftLcd) : Bool × TftLcd :=
  let eventNumber := tftlcdGetOnceEQNumber s
  if eventNumber = 0 then (false, s)
  else
    (true, { s with
      once := Function.update s.once pEventObj
        { eventStatus := .inactive
          onFunc := onFunc
          onCbFunc := onCbFunc
          eventNumber := eventNumber }
      onceEventQueue := Function.update s.onceEventQueue (eventNumber - 1) (some pEventObj) })

/-! ## Priorities -/

/-- The body of `TFTLCD_SetOnceEventPriority` and `TFTLCD_SetCycleEventPriority` on a queue of `num`
slots: the indices at which the queue is read or written, in order, and the queue; `none` when it
returns at once. -/
def setEventPriority (num gradeNumber eventNumber pEventObj : Nat) (queue : Nat → Option Nat) :
    Option (List Nat × (Nat → Option Nat)) :=
  if gradeNumber < 1 ∨ gradeNumber > num + 1 then none
  else
    let pEvent := queue gradeNumber
    let queue := Function.update queue gradeNumber (some pEventObj)
    let queue := Function.update queue eventNumber pEvent
    some ([gradeNumber, gradeNumber, eventNumber], queue)

/-- `TFTLCD_SetOnceEventPriority`, with the indices at which it uses the queue. -/
def tftlcdSetOnceEventPriority (gradeNumber pEventObj : Nat) (s : TftLcd) : List Nat × TftLcd :=
  match setEventPriority onceEventQueueNum gradeNumber (s.once pEventObj).eventNumber pEventObj
      s.onceEventQueue with
  | none => ([], s)
  | some (indices, queue) =>
    (indices, { s with
      onceEventQueue := queue
      once := Function.update s.once pEventObj
        { s.once pEventObj with eventNumber := gradeNumber } })

/-- `TFTLCD_SetCycleEventPriority`, with the indices at which it uses the queue. -/
def tftlcdSetCycleEventPriority (gradeNumber pEventObj : Nat) (s : TftLcd) : List Nat × TftLcd :=
  match setEventPriority cycleEventQueueNum gradeNumber (s.cycle pEventObj).eventNumber pEventObj
      s.cycleEventQueue with
  | none => ([], s)
  | some (indices, queue) =>
    (indices, { s with
      cycleEventQueue := queue
      cycle := Function.update s.cycle pEventObj
        { s.cycle pEventObj with eventNumber := gradeNumber } })

/-! ## Dispatch -/

/-- A status that a callback or a user writes. -/
inductive StatusWrite where
  | cycle (o : Nat) (st : EventState)
  | once (o : Nat) (st : EventState)

/-- The `EventStatus` of one once object. -/
def TftLcd.setOnceStatus (s : TftLcd) (o : Nat) (st : EventState) : TftLcd :=
  { s with once := Function.update s.once o { s.once o with eventStatus := st } }

/-- Append to the history of the once objects. -/
def TftLcd.log (s : TftLcd) (a : Act) : TftLcd := { s with trace := s.trace ++ [a] }

/-- Record a call of the `OnFunc` of a cycle object. -/
def TftLcd.logCall (s : TftLcd) (o : Nat) : TftLcd := { s with cycleCalls := s.cycleCalls ++ [o] }

/-- One write of a status. -/
def TftLcd.write (s : TftLcd) : StatusWrite → TftLcd
  | .cycle o st =>
    { s with cycle := Function.update s.cycle o { s.cycle o with eventStatus := st } }
  | .once o st => (s.setOnceStatus o st).log (.write o st)

/-- A call of a callback, by the statuses it writes. -/
def TftLcd.call (s : TftLcd) (ws : List StatusWrite) : TftLcd := ws.foldl TftLcd.write s

/-- Where the dispatcher calls a callback: `OnFunc` or `OnCbFunc` of the once event in a slot, or
`OnFunc` of the cycle event in a slot. -/
inductive Site where
  | onFunc (i : Nat)
  | onCbFunc (i : Nat)
  | cycleFunc (i : Nat)

/-- What the function at an address does when it is called from a site, in one pass. -/
abbrev Env := Site → Nat → List StatusWrite

/-- The first loop's body, for the slot `i`. -/
def onceSlot (env : Env) (i : Nat) (s : TftLcd) : TftLcd :=
  match s.onceEventQueue i with
  | none => s
  | some o =>
    if (s.once o).eventStatus = .active then
      let s := (s.log (.start o)).call (env (.onFunc i) (s.once o).onFunc)
      let s := (s.setOnceStatus o .inactive).log (.clear o (s.once o).eventStatus)
      s.call (env (.onCbFunc i) (s.once o).onCbFunc)
    else s

/-- `_TFTLCD_CycleBaseOnFunc`, on the cycle object `o` of the slot `i`. The core's division by a
zero `EventPeriodCnt` gives 0, so the remainder is then the dividend. -/
def tftlcdCycleBaseOnFunc (env : Env) (i eventCnt o : Nat) (s : TftLcd) : TftLcd :=
  let s := if (s.cycle o).eventInitCtn = 0 then
      { s with cycle := Function.update s.cycle o { s.cycle o with eventInitCtn := eventCnt } }
    else s
  let obj := s.cycle o
  let past := (eventCycleCntValue + eventCnt + 2 ^ 32 - obj.eventInitCtn) % 2 ^ 32
  if past % eventCycleCntValue % obj.eventPeriodCnt = 0 then
    (s.logCall o).call (env (.cycleFunc i) obj.onFunc)
  else s

/-- The second loop's body, for the slot `i`. -/
def cycleSlot (env : Env) (i : Nat) (s : TftLcd) : TftLcd :=
  match s.cycleEventQueue i with
  | none => s
  | some o =>
    if (s.cycle o).eventStatus = .active then
      tftlcdCycleBaseOnFunc env i s.eventCycleCnt o s
    else s

/-- `TFTLCD_EventProcess`. -/
def tftlcdEventProcess (env : Env) (s : TftLcd) : TftLcd :=
  let s := (List.range onceEventQueueNum).foldl (fun s i => onceSlot env i s) s
  let s := (List.range cycleEventQueueNum).foldl (fun s i => cycleSlot env i s) s
  { s with eventCycleCnt := s.eventCycleCnt % eventCycleCntValue + 1 }

end Stm32F407.Lcd
