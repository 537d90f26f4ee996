import Mathlib.Algebra.Order.Ring.Nat
import Mathlib.Data.Nat.Basic

/-!
# Control requests and enumeration of the USB host

The part of `usbh_core.c`, `usbh_ioreq.c` and `usbh_stdreq.c` that talks to the default pipe of a
device. A request is issued by `usbhCtlReq`, which parks the host in `HOST_CTRL_XFER`; there
`usbhHandleControl` walks the stages of the transfer, one per call, and goes back to the state the
request came from. `usbhHandleEnum` is the chain of requests of the enumeration.

What the bus answers during one call is a `Bus`: the state of the URB that the call looks at,
whether the transfer is overdue, and what the receive buffer parses to. Host channels, toggles,
speeds and the data buffers carry no decision of these functions and are left out.
-/

namespace Stm32F407.Usb

/-! ## States -/

/-- `USBH_Status`. -/
inductive UsbhStatus
  | ok | busy | fail | notSupported | unrecoveredError | errorSpeedUnknown | applyDeinit
  deriving DecidableEq, Repr

/-- `HOST_State`, the values of `gState`. -/
inductive HostState
  | idle | waitPrtEnabled | devAttached | devDisconnected | detectDeviceSpeed | enumeration
  | classRequest | hostClass | ctrlXfer | usrInput | suspended | wakeup | errorState
  deriving DecidableEq, Repr

/-- `ENUM_State`. -/
inductive EnumState
  | idle | getFullDevDesc | setAddr | getCfgDesc | getFullCfgDesc | getMfcStringDesc
  | getProductStringDesc | getSerialnumStringDesc | setConfiguration | devConfigured
  deriving DecidableEq, Repr

/-- `CTRL_State`, the stages of a control transfer. -/
inductive CtrlState
  | idle | setup | setupWait | dataIn | dataInWait | dataOut | dataOutWait | statusIn
  | statusInWait | statusOut | statusOutWait | error | stalled | complete
  deriving DecidableEq, Repr

/-- `CMD_State`, whether the request of the moment is yet to be sent or waited for. -/
inductive CmdState
  | idle | send | wait
  deriving DecidableEq, Repr

/-- `URB_STATE`. -/
inductive UrbState
  | idle | done | notReady | error | stall
  deriving DecidableEq, Repr

/-! ## Descriptors and requests -/

/-- The setup packet of a request; `d2h` is the direction bit of `bmRequestType`. -/
structure Setup where
  d2h : Bool
  bRequest : Nat
  wValue : Nat
  wIndex : Nat
  wLength : Nat
  deriving DecidableEq, Repr

/-- The string indices of the device descriptor. -/
structure DevDesc where
  iManufacturer : Nat
  iProduct : Nat
  iSerialNumber : Nat
  deriving DecidableEq, Repr

/-- The configuration descriptor. -/
structure CfgDesc where
  wTotalLength : Nat
  bConfigurationValue : Nat
  deriving DecidableEq, Repr

/-- The interface descriptor. -/
structure ItfDesc where
  bInterfaceClass : Nat
  bInterfaceProtocol : Nat
  deriving DecidableEq, Repr

/-- An endpoint descriptor. -/
structure EpDesc where
  bEndpointAddress : Nat
  wMaxPacketSize : Nat
  deriving DecidableEq, Repr

/-- `device_prop`: what is known of the device; the first interface and its two endpoints. -/
structure DeviceProp where
  devDesc : DevDesc
  cfgDesc : CfgDesc
  itfDesc : ItfDesc
  epDesc0 : EpDesc
  epDesc1 : EpDesc
  deriving DecidableEq, Repr

/-- A command status wrapper as received: its length and fields. -/
structure Csw where
  xferCnt : Nat
  signature : Nat
  tag : Nat
  status : Nat
  deriving DecidableEq, Repr

/-- What the bus answers during one call. -/
structure Bus where
  /-- `HCD_GetURB_State` of the channel that the call looks at. -/
  urb : UrbState
  /-- `HCD_GetCurrentFrame(pdev) - Control.timer > timeout`. -/
  late : Bool
  /-- What the receive buffer parses to, as a descriptor. -/
  received : DeviceProp
  /-- What `USBH_ParseCfgDesc` makes of the interfaces and endpoints in it. -/
  cfgStatus : UsbhStatus
  /-- The byte `GetMaxLUN` answered. -/
  maxLun : Nat
  /-- The command status wrapper received last. -/
  csw : Csw
  deriving DecidableEq, Repr

/-- `phost`. -/
structure Host where
  gState : HostState
  gStateBkp : HostState
  enumState : EnumState
  requestState : CmdState
  ctrlState : CtrlState
  errorcount : Nat
  setup : Setup
  deviceProp : DeviceProp
  deriving DecidableEq, Repr

/-- The user callbacks of the host, the class callbacks, the changes of the connection status and
the SCSI transfer commands of the disk functions: the history a run leaves. -/
inductive Mark
  | connected | disconnected
  | init | deInit | deviceAttached | resetDevice | deviceDisconnected | deviceSpeedDetected
  | deviceDescAvailable | deviceAddressAssigned | configurationDescAvailable
  | manufacturerString | productString | serialNumString | enumerationDone | userInput
  | userApplication | deviceNotSupported | unrecoveredError
  | classInit | classDeInit | classRequests
  | read10 | write10
  deriving DecidableEq, Repr

/-! ## Requests -/

/-- `USBH_SubmitSetupRequest`. -/
def usbhSubmitSetupRequest (h : Host) : Host :=
  { h with gStateBkp := h.gState, gState := .ctrlXfer, ctrlState := .setup }

/-- `USBH_CtlReq`, with the setup packet that every request writes just before it. -/
def usbhCtlReq (setup : Setup) (h : Host) : UsbhStatus × Host :=
  let h := { h with setup := setup }
  match h.requestState with
  | .send => (.busy, { usbhSubmitSetupRequest h with requestState := .wait })
  | .wait =>
    match h.ctrlState with
    | .complete => (.ok, { h with requestState := .send, ctrlState := .idle })
    | .error => (.fail, { h with requestState := .send })
    | .stalled => (.notSupported, { h with requestState := .send })
    | _ => (.busy, h)
  | .idle => (.busy, h)

def usbDescDevice : Nat := 0x0100
def usbDescConfiguration : Nat := 0x0200
def usbDescString : Nat := 0x0300

/-- `USBH_GetDescriptor`. -/
def usbhGetDescriptor (valueIdx length : Nat) (h : Host) : UsbhStatus × Host :=
  usbhCtlReq ⟨true, 0x06, valueIdx, if valueIdx &&& 0xff00 = usbDescString then 0x0409 else 0,
    length⟩ h

/-- `USBH_Get_DevDesc`: the first eight bytes hold none of the string indices. -/
def usbhGetDevDesc (b : Bus) (length : Nat) (h : Host) : UsbhStatus × Host :=
  match usbhGetDescriptor usbDescDevice length h with
  | (.ok, h) =>
    (.ok, if 8 < length then
      { h with deviceProp := { h.deviceProp with devDesc := b.received.devDesc } } else h)
  | r => r

/-- `USBH_Get_CfgDesc`: the interfaces and endpoints are parsed once more than the nine bytes of the
configuration descriptor have been asked for. -/
def usbhGetCfgDesc (b : Bus) (length : Nat) (h : Host) : UsbhStatus × Host :=
  match usbhGetDescriptor usbDescConfiguration length h with
  | (.ok, h) =>
    if 9 < length then
      (b.cfgStatus, { h with deviceProp := { b.received with devDesc := h.deviceProp.devDesc } })
    else
      (.ok, { h with deviceProp := { h.deviceProp with cfgDesc := b.received.cfgDesc } })
  | r => r

/-- `USBH_Get_StringDesc`. -/
def usbhGetStringDesc (index : Nat) (h : Host) : UsbhStatus × Host :=
  usbhGetDescriptor (usbDescString ||| index) 0xff h

/-- `USBH_SetAddress`. -/
def usbhSetAddress (address : Nat) (h : Host) : UsbhStatus × Host :=
  usbhCtlReq ⟨false, 0x05, address, 0, 0⟩ h

/-- `USBH_SetCfg`. -/
def usbhSetCfg (cfgIdx : Nat) (h : Host) : UsbhStatus × Host :=
  usbhCtlReq ⟨false, 0x09, cfgIdx, 0, 0⟩ h

/-- `USBH_ClrFeature` of an endpoint. -/
def usbhClrFeature (epNum : Nat) (h : Host) : UsbhStatus × Host :=
  usbhCtlReq ⟨false, 0x01, 0, epNum, 0⟩ h

/-! ## The control transfer -/

/-- Leave `HOST_CTRL_XFER`, the transfer being in the stage `st`. -/
def Host.leaveXfer (h : Host) (st : CtrlState) : Host :=
  { h with gState := h.gStateBkp, ctrlState := st }

/-- The stage the transfer goes to after the setup packet. -/
def Setup.nextStage (p : Setup) : CtrlState :=
  if p.wLength ≠ 0 then if p.d2h then .dataIn else .dataOut
  else if p.d2h then .statusOut else .statusIn

/-- `USBH_HandleControl`. -/
def usbhHandleControl (b : Bus) (h : Host) : Host :=
  match h.ctrlState with
  | .setup => { h with ctrlState := .setupWait }
  | .setupWait =>
    match b.urb with
    | .done => { h with ctrlState := h.setup.nextStage }
    | .error => { h with ctrlState := .error }
    | _ => h
  | .dataIn => { h with ctrlState := .dataInWait }
  | .dataInWait =>
    match b.urb with
    | .stall => h.leaveXfer .stalled
    | .error => { h with ctrlState := .error }
    -- a packet that is done and overdue counts as overdue
    | .done => { h with ctrlState := if b.late then .error else .statusOut }
    | _ => if b.late then { h with ctrlState := .error } else h
  | .dataOut => { h with ctrlState := .dataOutWait }
  | .dataOutWait =>
    match b.urb with
    | .done => { h with ctrlState := .statusIn }
    | .stall => h.leaveXfer .stalled
    | .notReady => { h with ctrlState := .dataOut }
    | .error => { h with ctrlState := .error }
    | .idle => h
  | .statusIn => { h with ctrlState := .statusInWait }
  | .statusInWait =>
    match b.urb with
    | .done => h.leaveXfer .complete
    | .error => { h with ctrlState := .error }
    | .stall => if b.late then { h with ctrlState := .error } else h.leaveXfer .stalled
    | _ => if b.late then { h with ctrlState := .error } else h
  | .statusOut => { h with ctrlState := .statusOutWait }
  | .statusOutWait =>
    match b.urb with
    | .done => h.leaveXfer .complete
    | .notReady => { h with ctrlState := .statusOut }
    | .error => { h with ctrlState := .error }
    | _ => h
  | .error =>
    let n := (h.errorcount + 1) % 256
    if n ≤ 2 then { h with errorcount := n, ctrlState := .setup }
    else { h with errorcount := n }.leaveXfer .error
  | _ => h

/-! ## Enumeration -/

/-- The next enumeration state, once the request has been answered. -/
def nextEnum (st : EnumState) (marks : List Mark) : UsbhStatus × Host → Host × List Mark
  | (.ok, h) => ({ h with enumState := st }, marks)
  | (_, h) => (h, [])

/-- One of the three string descriptors: skipped when the device has none. -/
def enumString (index : Nat) (st : EnumState) (mark : Mark) (h : Host) : Host × List Mark :=
  if index ≠ 0 then nextEnum st [mark] (usbhGetStringDesc index h)
  else ({ h with enumState := st }, [mark])

/-- `USBH_HandleEnum`: the status, the host and the user callbacks made. -/
def usbhHandleEnum (b : Bus) (h : Host) : UsbhStatus × Host × List Mark :=
  match h.enumState with
  | .idle => (.busy, nextEnum .getFullDevDesc [] (usbhGetDevDesc b 8 h))
  | .getFullDevDesc =>
    (.busy, nextEnum .setAddr [.deviceDescAvailable] (usbhGetDevDesc b 18 h))
  | .setAddr => (.busy, nextEnum .getCfgDesc [.deviceAddressAssigned] (usbhSetAddress 1 h))
  | .getCfgDesc =>
    match usbhGetCfgDesc b 9 h with
    | (.ok, h) =>
      -- a longer configuration than the buffer is asked for again
      (.busy, if h.deviceProp.cfgDesc.wTotalLength ≤ 0x400 then
        { h with enumState := .getFullCfgDesc } else h, [])
    | (_, h) => (.busy, h, [])
  | .getFullCfgDesc =>
    (.busy, nextEnum .getMfcStringDesc [.configurationDescAvailable]
      (usbhGetCfgDesc b h.deviceProp.cfgDesc.wTotalLength h))
  | .getMfcStringDesc =>
    (.busy, enumString h.deviceProp.devDesc.iManufacturer .getProductStringDesc
      .manufacturerString h)
  | .getProductStringDesc =>
    (.busy, enumString h.deviceProp.devDesc.iProduct .getSerialnumStringDesc .productString h)
  | .getSerialnumStringDesc =>
    (.busy, enumString h.deviceProp.devDesc.iSerialNumber .setConfiguration .serialNumString h)
  | .setConfiguration =>
    (.busy, nextEnum .devConfigured [] (usbhSetCfg h.deviceProp.cfgDesc.bConfigurationValue h))
  | .devConfigured => (.ok, h, [])

end Stm32F407.Usb
