import Stm32F407.Usb.Control

/-!
# The mass-storage class of the USB host

The bulk-only transport (`usbh_msc_bot.c`) and the SCSI commands over it (`usbh_msc_scsi.c`). A
command fills in the command block and hands it to the transport; the transport is driven one stage
per call of `usbhMscHandleBOTXfer`, by the class machine or by the disk functions, and leaves its
verdict in `botXferStatus`, where the next call of the command finds it.

The sense data, the capacity and the write protection that the commands store are read by no
modelled function and are left out, and so are the pointers into the data buffer.
-/

namespace Stm32F407.Usb

/-- `MSCState`. -/
inductive MscState
  | botInitState | botReset | getMaxLun | testUnitReady | readCapacity10 | modeSense6
  | requestSense | botUsbTransfers | defaultAppliState | ctrlErrorState | unrecoveredState
  deriving DecidableEq, Repr

/-- `USBH_MSC_Status_TypeDef`. -/
inductive MscStatus
  | ok | fail | phaseError | busy
  deriving DecidableEq, Repr

/-- `CMD_STATES_TypeDef`. -/
inductive MscCmdState
  | uninitialized | send | waitStatus
  deriving DecidableEq, Repr

/-- The states of the bulk-only transport; the value 0 before the first command names none. -/
inductive BotState
  | none | sendCbw | sentCbw | dataIn | dataOut | receiveCsw | decodeCsw | errorIn | errorOut
  deriving DecidableEq, Repr

/-- The direction of the last bulk error. -/
inductive BotDir
  | dirIn | dirOut | both
  deriving DecidableEq, Repr

/-- Where the data stage reads or writes: the buffers of the class, or one of the caller. -/
inductive DataBuffer
  | csw | dataIn | user (addr : Nat)
  deriving DecidableEq, Repr

/-- `USBH_MSC_CBWData`: the command block, with the block address and page count of its CDB. -/
structure Cbw where
  tag : Nat
  transferLength : Nat
  dirIn : Bool
  opcode : Nat
  address : Nat
  pages : Nat
  deriving DecidableEq, Repr

/-- `MSC_Machine`, `USBH_MSC_BOTXferParam` and the counters of the class. -/
structure Msc where
  mscState : MscState
  mscStateBkp : MscState
  mscStateCurrent : MscState
  cmdStateMachine : MscCmdState
  botState : BotState
  botStateBkp : BotState
  botXferStatus : MscStatus
  pRxTxBuff : DataBuffer
  cbw : Cbw
  mscErrorCount : Nat
  botStallErrorCount : Nat
  xferErrorCount : Nat
  remainingDataLength : Nat
  errorDirection : BotDir
  bulkInEp : EpDesc
  bulkOutEp : EpDesc
  maxLun : Nat
  maxLunExceed : Bool
  deriving DecidableEq, Repr

/-! ## The interface -/

/-- Bind an endpoint of the interface to the pipe of its direction. -/
def Msc.bindEp (m : Msc) (ep : EpDesc) : Msc :=
  if ep.bEndpointAddress &&& 0x80 ≠ 0 then { m with bulkInEp := ep } else { m with bulkOutEp := ep }

/-- `USBH_MSC_InterfaceInit`: a device of another class is reported, and still answered `USBH_OK`.
-/
def mscInterfaceInit (h : Host) (m : Msc) : UsbhStatus × Msc × List Mark :=
  if h.deviceProp.itfDesc.bInterfaceClass = 0x08 ∧ h.deviceProp.itfDesc.bInterfaceProtocol = 0x50
  then (.ok, (m.bindEp h.deviceProp.epDesc0).bindEp h.deviceProp.epDesc1, [])
  else (.ok, m, [.deviceNotSupported])

/-- `USBH_MSC_ClassRequest`. -/
def mscClassRequest (m : Msc) : UsbhStatus × Msc :=
  (.ok, { m with mscState := .botInitState })

/-- `USBH_MSC_Init`. -/
def usbhMscInit (connSts : Bool) (m : Msc) : Msc :=
  let m := if connSts then
    { m with cbw := { m.cbw with tag := 0x20304050 }, cmdStateMachine := .send } else m
  { m with botStallErrorCount := 0, mscErrorCount := 0 }

/-! ## The bulk-only transport -/

/-- `USBH_MSC_DecodeCSW`. -/
def usbhMscDecodeCSW (connSts : Bool) (b : Bus) (m : Msc) : MscStatus :=
  if connSts then
    if b.csw.xferCnt ≠ 13 then .phaseError
    else if b.csw.signature = 0x53425355 then
      if b.csw.tag = m.cbw.tag then
        if b.csw.status = 0 then .ok
        else if b.csw.status = 1 then .fail
        else if b.csw.status = 2 then .phaseError
        else .fail
      else .fail
    else .phaseError
  else .fail

/-- `USBH_MSC_BOT_Abort`: clear the endpoint, unless stalls have come in a row too often. -/
def usbhMscBotAbort (ep : EpDesc) (h : Host) (m : Msc) : UsbhStatus × Host × Msc :=
  let r := usbhClrFeature ep.bEndpointAddress h
  let n := (m.botStallErrorCount + 1) % 2 ^ 32
  (if n > 4 then .unrecoveredError else r.1, r.2, { m with botStallErrorCount := n })

/-- A failed URB is tried again from the saved state, three times. -/
def Msc.retry (m : Msc) : Msc :=
  let n := (m.xferErrorCount + 1) % 256
  if n < 3 then { m with xferErrorCount := n, botState := m.botStateBkp }
  else { m with xferErrorCount := n, botXferStatus := .phaseError }

/-- A stall in the data stage: clear the pipe, then ask for the status. -/
def Msc.stallData (m : Msc) (d : BotDir) (st : BotState) : Msc :=
  { m with errorDirection := d, botState := st, botStateBkp := .receiveCsw }

/-- Ask for the next packet of the data stage. -/
def Msc.nextPacket (m : Msc) (size : Nat) : Msc :=
  if m.remainingDataLength > size then
    { m with remainingDataLength := m.remainingDataLength - size }
  else if m.remainingDataLength = 0 then { m with botState := .receiveCsw }
  else { m with remainingDataLength := 0 }

/-- The transport of one call, apart from the two states that clear an endpoint. -/
def Msc.botStep (connSts : Bool) (b : Bus) (m : Msc) : Msc :=
  match m.botState with
  | .sendCbw => { m with botStateBkp := .sendCbw, botState := .sentCbw, xferErrorCount := 0 }
  | .sentCbw =>
    match b.urb with
    | .done =>
      let m := { m with botStallErrorCount := 0, botStateBkp := .sentCbw }
      if m.cbw.transferLength ≠ 0 then
        { m with remainingDataLength := m.cbw.transferLength,
                 botState := if m.cbw.dirIn then .dataIn else .dataOut }
      else { m with botState := .receiveCsw }
    | .notReady => { m with botState := m.botStateBkp }
    | .stall => { m with errorDirection := .dirOut, botState := .errorOut }
    | .error => m.retry
    | .idle => m
  | .dataIn =>
    if b.urb = .done ∨ m.botStateBkp ≠ .dataIn then
      { m with botStallErrorCount := 0, botStateBkp := .dataIn }.nextPacket
        m.bulkInEp.wMaxPacketSize
    else
      match b.urb with
      | .stall => m.stallData .dirIn .errorIn
      | .error => m.retry
      | _ => m
  | .dataOut =>
    match b.urb with
    | .done =>
      let m' := { m with botStallErrorCount := 0, botStateBkp := .dataOut }.nextPacket
        m.bulkOutEp.wMaxPacketSize
      if m.remainingDataLength > m.bulkOutEp.wMaxPacketSize then { m' with xferErrorCount := 0 }
      else m'
    | .stall => m.stallData .dirOut .errorOut
    | .error => m.retry
    -- on `URB_NOTREADY` the packet is sent again
    | _ => m
  | .receiveCsw =>
    { m with botStateBkp := .receiveCsw, pRxTxBuff := .csw, botState := .decodeCsw,
             xferErrorCount := 0 }
  | .decodeCsw =>
    match b.urb with
    | .done =>
      { m with botStallErrorCount := 0, botStateBkp := .receiveCsw, mscState := m.mscStateCurrent,
               botXferStatus := usbhMscDecodeCSW connSts b m }
    | .stall => { m with errorDirection := .dirIn, botState := .errorIn }
    | .error => m.retry
    | _ => m
  | _ => m

/-- `USBH_MSC_HandleBOTXfer`. -/
def usbhMscHandleBOTXfer (connSts : Bool) (b : Bus) (h : Host) (m : Msc) : Host × Msc :=
  if connSts then
    match m.botState with
    | .errorIn =>
      let r := usbhMscBotAbort m.bulkInEp h m
      match r.1 with
      | .ok =>
        (r.2.1, { r.2.2 with
          botState := if m.errorDirection = .both then .errorOut else m.botStateBkp })
      | .unrecoveredError => (r.2.1, { r.2.2 with botXferStatus := .phaseError })
      | _ => r.2
    | .errorOut =>
      let r := usbhMscBotAbort m.bulkOutEp h m
      match r.1 with
      | .ok => (r.2.1, { r.2.2 with botState := m.botStateBkp })
      | .unrecoveredError => (r.2.1, { r.2.2 with botXferStatus := .phaseError })
      | _ => r.2
    | _ => (h, m.botStep connSts b)
  else (h, m)

/-! ## SCSI commands -/

/-- The command machine shared by the SCSI commands: `prepare` fills in the command block, and
`onFail` is what a failed transfer is answered with. -/
def scsiCommand (prepare : Msc → Msc) (onFail : MscStatus) (connSts : Bool) (m : Msc) :
    MscStatus × Msc :=
  if connSts then
    match m.cmdStateMachine with
    | .send =>
      (.busy, { prepare m with
        botState := .sendCbw, mscState := .botUsbTransfers, botXferStatus := .busy,
        cmdStateMachine := .waitStatus })
    | .waitStatus =>
      match m.botXferStatus with
      | .ok => (.ok, { m with cmdStateMachine := .send })
      | .fail => (onFail, { m with cmdStateMachine := .send })
      | .phaseError => (.phaseError, { m with cmdStateMachine := .send })
      | .busy => (.busy, m)
    | .uninitialized => (.busy, m)
  else (.busy, m)

/-- The command block of a command. -/
def Msc.prepare (m : Msc) (buff : DataBuffer) (length : Nat) (dirIn : Bool) (opcode : Nat)
    (address pages : Nat) : Msc :=
  { m with
    pRxTxBuff := buff
    cbw := { m.cbw with
      transferLength := length, dirIn := dirIn, opcode := opcode, address := address,
      pages := pages } }

/-- `USBH_MSC_TestUnitReady`. -/
def usbhMscTestUnitReady : Bool → Msc → MscStatus × Msc :=
  scsiCommand (fun m => { m.prepare .csw 0 false 0x00 0 0 with mscStateCurrent := .testUnitReady })
    .fail

/-- `USBH_MSC_ReadCapacity10`. -/
def usbhMscReadCapacity10 : Bool → Msc → MscStatus × Msc :=
  scsiCommand
    (fun m => { m.prepare .dataIn 8 true 0x25 0 0 with mscStateCurrent := .readCapacity10 }) .fail

/-- `USBH_MSC_ModeSense6`. -/
def usbhMscModeSense6 : Bool → Msc → MscStatus × Msc :=
  scsiCommand (fun m => { m.prepare .dataIn 63 true 0x1A 0 0 with mscStateCurrent := .modeSense6 })
    .fail

/-- `USBH_MSC_RequestSense`: comes back to the command that failed. -/
def usbhMscRequestSense : Bool → Msc → MscStatus × Msc :=
  scsiCommand (fun m => { m.prepare .dataIn 63 true 0x03 0 0 with
    mscStateBkp := m.mscStateCurrent, mscStateCurrent := .requestSense }) .fail

/-- `USBH_MSC_Read10`: a failed transfer leaves the answer `USBH_MSC_BUSY`. -/
def usbhMscRead10 (buff address nbOfbytes : Nat) : Bool → Msc → MscStatus × Msc :=
  scsiCommand (fun m => m.prepare (.user buff) nbOfbytes true 0x28 address
    (nbOfbytes / 512 % 2 ^ 16)) .busy

/-- `USBH_MSC_Write10`: a failed transfer leaves the answer `USBH_MSC_BUSY`. -/
def usbhMscWrite10 (buff address nbOfbytes : Nat) : Bool → Msc → MscStatus × Msc :=
  scsiCommand (fun m => m.prepare (.user buff) nbOfbytes false 0x2A address
    (nbOfbytes / 512 % 2 ^ 16)) .busy

/-- `USBH_MSC_ErrorHandle`. -/
def usbhMscErrorHandle (status : MscStatus) (m : Msc) : Msc :=
  match status with
  | .fail =>
    let n := (m.mscErrorCount + 1) % 256
    if n < 10 then
      { m with mscErrorCount := n, mscState := .requestSense, cmdStateMachine := .send }
    else { m with mscErrorCount := n, mscState := .unrecoveredState }
  | .phaseError => { m with mscState := .unrecoveredState }
  | _ => m

end Stm32F407.Usb
