import Stm32F407.Usb.Msc

/-!
# The USB host, its user callbacks and the disk functions

`usbhProcess` is the state machine that the main loop calls; it issues the user callbacks of
`usbh_usr.c`. The interrupt handler keeps the connection status and the port flag. `USB_disk_read`
and `USB_disk_write` run the transport themselves, in a loop that the main loop does not leave and
that interrupts may come into; a step of the machine is one call of such a loop.

* `UsbHost.step` is one event: an interrupt, a call of `USBH_Process`, the entry into a disk
  function, or the next call inside it.
* `UsbHost.log` is the history, the latest mark first.
-/

namespace Stm32F407.Usb

/-! ## State -/

/-- `pdev->host`: the flags the interrupt handler keeps, and whether the core interrupts at all. -/
structure Hcd where
  connSts : Bool
  portEnabled : Bool
  intEnabled : Bool
  deriving DecidableEq, Repr

/-- `USB_Manage`. -/
structure UsbManage where
  mode : Nat
  state : Nat
  type : Nat
  deriving DecidableEq, Repr

/-- `AppState`. -/
inductive AppState
  | init | waitOperation | okOperation | errOperation
  deriving DecidableEq, Repr

/-- The variables of `usbh_usr.c`. -/
structure Usr where
  appState : AppState
  manage : UsbManage
  deriving DecidableEq, Repr

/-- The arguments of a call of `USB_disk_read` or `USB_disk_write`. -/
structure DiskCall where
  write : Bool
  buff : Nat
  sector : Nat
  count : Nat
  deriving DecidableEq, Repr

/-- Where the loop of a disk function stands: before its SCSI command, or after it, with the answer
of the command in `Result`. -/
inductive DiskPc
  | command
  | transfer (result : MscStatus)
  deriving DecidableEq, Repr

/-- The USB host: hardware flags, host, class, user variables, the disk function that runs, what the
last one returned, and the history. -/
structure UsbHost where
  hcd : Hcd
  host : Host
  msc : Msc
  usr : Usr
  disk : Option (DiskCall × DiskPc)
  ret : MscStatus
  log : List Mark
  deriving DecidableEq, Repr

/-- Add to the history, in the order of the list. -/
def UsbHost.mark (s : UsbHost) (ms : List Mark) : UsbHost := { s with log := ms.reverse ++ s.log }

/-! ## User callbacks -/

/-- `USBH_USR_Init`. -/
def usbhUsrInit (u : Usr) : Usr := { u with manage := ⟨0, 0, 0⟩ }

/-- `USBH_USR_DeInit`. -/
def usbhUsrDeInit (u : Usr) : Usr := { u with appState := .init }

/-- `USBH_USR_Configuration_DescAvailable`. -/
def usbhUsrConfigurationDescAvailable (itf : ItfDesc) (u : Usr) : Usr :=
  if itf.bInterfaceClass = 0x08 then { u with manage := { u.manage with type := 3 } } else u

/-- `USBH_USR_MSC_Application`: the return value, always 0, and the variables. -/
def usbhUsrMscApplication (connSts : Bool) (u : Usr) : Nat × Usr :=
  match u.appState with
  | .init => (0, { u with appState := .waitOperation })
  | .waitOperation =>
    if connSts then (0, { u with manage := { u.manage with state := 1 } })
    else (0, { u with appState := .init })
  | _ => (0, u)

/-! ## The class machine -/

/-- A SCSI command of the class machine: `next` when it has succeeded. -/
def mscCommand (command : Bool → Msc → MscStatus × Msc) (next : MscState) (s : UsbHost) :
    UsbhStatus × UsbHost :=
  match command s.hcd.connSts s.msc with
  | (.ok, m) => (.ok, { s with msc := { m with mscState := next, mscErrorCount := 0 } })
  | (r, m) => (.busy, { s with msc := usbhMscErrorHandle r m })

/-- `USBH_MSC_GETMaxLUN` and what the class machine makes of the answer. -/
def mscGetMaxLun (b : Bus) (s : UsbHost) : UsbhStatus × UsbHost :=
  match usbhCtlReq ⟨true, 0xFE, 0, 0, 1⟩ s.host with
  | (.ok, h) =>
    let s := { s with host := h, msc := { s.msc with maxLun := b.maxLun } }
    -- a second unit is refused once, and let pass from then on
    if b.maxLun > 0 ∧ s.msc.maxLunExceed = false then
      (.ok, { s with msc := { s.msc with maxLunExceed := true } }.mark [.deviceNotSupported])
    else (.ok, { s with msc := { s.msc with mscState := .testUnitReady } })
  | (.notSupported, h) =>
    (.notSupported, { s with
      host := h, msc := { s.msc with mscStateBkp := .testUnitReady, mscState := .ctrlErrorState } })
  | (r, h) => (r, { s with host := h })

/-- `USBH_MSC_Handle`. -/
def mscHandle (b : Bus) (s : UsbHost) : UsbhStatus × UsbHost :=
  if s.hcd.connSts then
    match s.msc.mscState with
    | .botInitState =>
      (.busy, { s with msc := { usbhMscInit s.hcd.connSts s.msc with mscState := .getMaxLun } })
    | .getMaxLun => mscGetMaxLun b s
    | .ctrlErrorState =>
      match usbhClrFeature 0 s.host with
      | (.ok, h) =>
        (.ok, { s with
          host := h, msc := { s.msc with maxLun := 0, mscState := s.msc.mscStateBkp } })
      | (r, h) => (r, { s with host := h })
    | .testUnitReady => mscCommand usbhMscTestUnitReady .readCapacity10 s
    | .readCapacity10 => mscCommand usbhMscReadCapacity10 .modeSense6 s
    | .modeSense6 => mscCommand usbhMscModeSense6 .defaultAppliState s
    | .botUsbTransfers =>
      let r := usbhMscHandleBOTXfer s.hcd.connSts b s.host s.msc
      (.busy, { s with host := r.1, msc := r.2 })
    | .defaultAppliState =>
      let r := usbhUsrMscApplication s.hcd.connSts s.usr
      let s := { s with usr := r.2 }.mark [.userApplication]
      if r.1 = 1 then (.applyDeinit, s) else (.busy, s)
    | .unrecoveredState => (.unrecoveredError, s)
    | .requestSense =>
      -- unlike the other commands, this one leaves the error count alone
      match usbhMscRequestSense s.hcd.connSts s.msc with
      | (.ok, m) => (.ok, { s with msc := { m with mscState := m.mscStateBkp } })
      | (r, m) => (.busy, { s with msc := usbhMscErrorHandle r m })
    | .botReset => (.busy, s)
  else (.busy, s)

/-! ## The host machine -/

/-- `USBH_DeInit`. -/
def usbhDeInit (h : Host) : Host :=
  { h with gState := .idle, gStateBkp := .idle, enumState := .idle, requestState := .send,
           ctrlState := .setup }

/-- `HCD_Init`: forgets the connection and starts the core with its interrupts. The change of the
connection status is marked. -/
def hcdInit (s : UsbHost) : UsbHost :=
  let s := if s.hcd.connSts then s.mark [.disconnected] else s
  { s with hcd := { s.hcd with connSts := false, intEnabled := true } }

/-- `USBH_ErrorHandle`. -/
def usbhErrorHandle (errType : UsbhStatus) (s : UsbHost) : UsbHost :=
  match errType with
  | .errorSpeedUnknown | .unrecoveredError =>
    { s with host := { s.host with gState := .errorState } }.mark [.unrecoveredError]
  | .applyDeinit =>
    { s with host := { s.host with gState := .errorState },
             usr := usbhUsrInit s.usr }.mark [.init]
  | _ => s

/-- The host state that `USBH_Process` switches on, after its look at the port. -/
def UsbHost.dispatchState (s : UsbHost) : HostState :=
  if (s.hcd.connSts = false ∨ s.hcd.portEnabled = false) ∧ s.host.gState ≠ .idle
  then .devDisconnected else s.host.gState

/-- The enumeration branch of `USBH_Process`. -/
def processEnum (b : Bus) (s : UsbHost) : UsbHost :=
  let r := usbhHandleEnum b s.host
  let usr := if .configurationDescAvailable ∈ r.2.2
    then usbhUsrConfigurationDescAvailable r.2.1.deviceProp.itfDesc s.usr else s.usr
  let s := { s with host := r.2.1, usr := usr }.mark r.2.2
  match r.1 with
  | .ok => { s with host := { s.host with gState := .usrInput } }.mark [.enumerationDone]
  | _ => s

/-- The user input branch of `USBH_Process`; `USBH_USR_UserInput` always lets it pass. -/
def processUsrInput (s : UsbHost) : UsbHost :=
  let r := mscInterfaceInit s.host s.msc
  let s := { s with msc := r.2.1 }.mark (.userInput :: .classInit :: r.2.2)
  match r.1 with
  | .ok => { s with host := { s.host with gState := .classRequest } }
  | _ => s

/-- The class request branch of `USBH_Process`. -/
def processClassRequest (s : UsbHost) : UsbHost :=
  let r := mscClassRequest s.msc
  let s := { s with msc := r.2 }.mark [.classRequests]
  match r.1 with
  | .ok => { s with host := { s.host with gState := .hostClass } }
  | st => usbhErrorHandle st s

/-- The switch of `USBH_Process`. -/
def processSwitch (b : Bus) (s : UsbHost) : UsbHost :=
  match s.host.gState with
  | .idle =>
    if s.hcd.connSts then
      { s with host := { s.host with gState := .waitPrtEnabled } }.mark [.resetDevice]
    else s
  | .waitPrtEnabled =>
    if s.hcd.portEnabled then { s with host := { s.host with gState := .devAttached } } else s
  | .devAttached =>
    -- `HCD_ResetPort` always returns 0
    { s with host := { s.host with gState := .enumeration } }.mark
      [.deviceAttached, .resetDevice, .deviceSpeedDetected]
  | .enumeration => processEnum b s
  | .usrInput => processUsrInput s
  | .classRequest => processClassRequest s
  | .hostClass =>
    let r := mscHandle b s
    usbhErrorHandle r.1 r.2
  | .ctrlXfer => { s with host := usbhHandleControl b s.host }
  | .errorState =>
    { s with host := usbhDeInit s.host, usr := usbhUsrDeInit s.usr }.mark [.deInit, .classDeInit]
  | .devDisconnected =>
    hcdInit ({ s with host := usbhDeInit s.host, usr := usbhUsrDeInit s.usr }.mark
      [.deviceDisconnected, .deInit, .classDeInit])
  | _ => s

/-- `USBH_Process`. -/
def usbhProcess (b : Bus) (s : UsbHost) : UsbHost :=
  processSwitch b { s with host := { s.host with gState := s.dispatchState } }

/-! ## Interrupts -/

/-- `USBH_Connected`. -/
def usbhConnected (s : UsbHost) : UsbHost :=
  let s := if s.hcd.connSts then s else s.mark [.connected]
  { s with hcd := { s.hcd with connSts := true } }

/-- `USBH_Disconnected`: the core stays silent until `HCD_Init`. -/
def usbhDisconnected (s : UsbHost) : UsbHost :=
  let s := if s.hcd.connSts then s.mark [.disconnected] else s
  { s with hcd := { s.hcd with connSts := false, intEnabled := false } }

/-- `USBH_PortEnabled` and `USBH_PortDisabled`. -/
def usbhPort (enabled : Bool) (s : UsbHost) : UsbHost :=
  { s with hcd := { s.hcd with portEnabled := enabled } }

/-! ## Disk functions -/

/-- The entry of `USB_disk_read` and `USB_disk_write`. -/
def usbDiskEnter (c : DiskCall) (s : UsbHost) : UsbHost :=
  if s.hcd.connSts = true ∧ s.usr.manage.state = 1 then { s with disk := some (c, .command) }
  else { s with ret := .fail }

/-- The SCSI command of a disk function. -/
def DiskCall.command (c : DiskCall) : Bool → Msc → MscStatus × Msc :=
  if c.write then usbhMscWrite10 c.buff c.sector (512 * c.count % 2 ^ 32)
  else usbhMscRead10 c.buff c.sector (512 * c.count % 2 ^ 32)

/-- Whether a call of the SCSI command puts a new command on the bus. -/
def UsbHost.issues (s : UsbHost) : Bool :=
  s.hcd.connSts && decide (s.msc.cmdStateMachine = .send)

/-- The mark of a SCSI command of a disk function. -/
def DiskCall.mark (c : DiskCall) : Mark := if c.write then .write10 else .read10

/-- The next call in the loop of a disk function: the SCSI command, or the transport with the look
at the connection and at the answer of the command. -/
def usbDiskStep (b : Bus) (s : UsbHost) : UsbHost :=
  match s.disk with
  | none => s
  | some (c, .command) =>
    let r := c.command s.hcd.connSts s.msc
    let s' := if s.issues then s.mark [c.mark] else s
    { s' with msc := r.2, disk := some (c, .transfer r.1) }
  | some (c, .transfer result) =>
    let r := usbhMscHandleBOTXfer s.hcd.connSts b s.host s.msc
    let s := { s with host := r.1, msc := r.2 }
    if s.hcd.connSts = false then { s with disk := none, ret := .fail }
    else if result = .busy then { s with disk := some (c, .command) }
    else { s with disk := none, ret := result }

/-! ## The machine -/

/-- What may happen next. -/
inductive UsbEvent
  | connected | disconnected | portEnabled | portDisabled
  | process (b : Bus)
  | disk (c : DiskCall)
  | diskStep (b : Bus)
  deriving DecidableEq, Repr

/-- One event. A masked interrupt is lost, and the main loop calls nothing while it is inside a disk
function. -/
def UsbHost.step (s : UsbHost) : UsbEvent → UsbHost
  | .connected => if s.hcd.intEnabled then usbhConnected s else s
  | .disconnected => if s.hcd.intEnabled then usbhDisconnected s else s
  | .portEnabled => if s.hcd.intEnabled then usbhPort true s else s
  | .portDisabled => if s.hcd.intEnabled then usbhPort false s else s
  | .process b => if s.disk = none then usbhProcess b s else s
  | .disk c => if s.disk = none then usbDiskEnter c s else s
  | .diskStep b => usbDiskStep b s

/-- No descriptor read yet. -/
def DeviceProp.zero : DeviceProp := ⟨⟨0, 0, 0⟩, ⟨0, 0⟩, ⟨0, 0⟩, ⟨0, 0⟩, ⟨0, 0⟩⟩

/-- Static variables before `main`. -/
def UsbHost.zero : UsbHost :=
  { hcd := ⟨false, false, false⟩
    host := ⟨.idle, .idle, .idle, .idle, .idle, 0, ⟨false, 0, 0, 0, 0⟩, .zero⟩
    msc := ⟨.botInitState, .botInitState, .botInitState, .uninitialized, .none, .none, .ok, .csw,
      ⟨0, 0, false, 0, 0, 0⟩, 0, 0, 0, 0, .dirIn, ⟨0, 0⟩, ⟨0, 0⟩, 0, false⟩
    usr := ⟨.init, ⟨0, 0, 0⟩⟩
    disk := none
    ret := .ok
    log := [] }

/-- `USBH_Init`. -/
def usbhInit (s : UsbHost) : UsbHost :=
  let s := hcdInit { s with host := usbhDeInit s.host }
  { s with usr := usbhUsrInit s.usr }.mark [.init]

end Stm32F407.Usb
