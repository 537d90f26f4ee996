import Stm32F407.Lib.Bytes
import Stm32F407.Lib.Ring
import Stm32F407.Lwip.Pbuf

/-!
# The Ethernet driver: descriptor rings, `lan8720.c` and `ethernetif.c`

Model of the two DMA descriptor rings and of the driver functions on them:
`ETH_DMARxDescChainInit`, `ETH_DMATxDescChainInit`, `ETH_GetRxPktSize` (`stm32f4xx_eth.c`),
`ETH_IRQHandler`, `ETH_Rx_Packet`, `ETH_Tx_Packet`, `ETH_GetCurrentTxBuffer` (`lan8720.c`),
`low_level_output`, `low_level_input` and `ethernetif_input` (`ethernetif.c`).

* A descriptor pointer is the index of the descriptor in its table, and a buffer address is an
  offset into `Rx_Buff` or `Tx_Buff`. `Status` is the 32-bit word with the masks of the header.
* The DMA is the environment: it keeps a cursor of its own, looks at the `OWN` bit of the
  descriptor there, and walks the same `Buffer2NextDescAddr` chain as the driver.
* A `pbuf` chain is the list of its payloads, in order.
* `ETH_RXBUFNB` and `ETH_TXBUFNB` are 5 (`CUSTOM_DRIVER_BUFFERS_CONFIG` is not defined).

Left out: the MAC and PHY configuration, and the interrupt pending bits that `ETH_IRQHandler` clears
on its way out.
-/

namespace Stm32F407.Eth

open Stm32F407.Lib
open Stm32F407.Lwip (ErrT)

/-! ## Descriptors -/

/-- `ETH_DMADESCTypeDef`, the four words both rings use. -/
structure EthDmaDesc where
  status : BitVec 32
  controlBufferSize : Nat
  buffer1Addr : Nat
  buffer2NextDescAddr : Nat

/-- `ETH_DMARxDesc_OWN` and `ETH_DMATxDesc_OWN`. -/
def descOwn : BitVec 32 := 0x80000000#32

/-- `ETH_DMARxDesc_FL`. -/
def rxDescFl : BitVec 32 := 0x3FFF0000#32

/-- `ETH_DMARxDesc_ES`. -/
def rxDescEs : BitVec 32 := 0x00008000#32

/-- `ETH_DMARxDesc_FS`. -/
def rxDescFs : BitVec 32 := 0x00000200#32

/-- `ETH_DMARxDesc_LS`. -/
def rxDescLs : BitVec 32 := 0x00000100#32

/-- `ETH_DMARxDesc_RCH`. -/
def rxDescRch : Nat := 0x00004000

/-- `ETH_DMATxDesc_TCH`. -/
def txDescTch : BitVec 32 := 0x00100000#32

/-- `ETH_DMATxDesc_LS | ETH_DMATxDesc_FS`. -/
def txDescLsFs : BitVec 32 := 0x20000000#32 ||| 0x10000000#32

/-- `ETH_DMATxDesc_ChecksumTCPUDPICMPFull`. -/
def txDescChecksum : BitVec 32 := 0x00C00000#32

/-- `ETH_DMATxDesc_TBS1`. -/
def txDescTbs1 : Nat := 0x1FFF

/-- `ETH_RX_BUF_SIZE` and `ETH_TX_BUF_SIZE` (`ETH_MAX_PACKET_SIZE`). -/
def ethBufSize : Nat := 1524

/-- `ETH_RXBUFNB`. -/
def ethRxBufNb : Nat := 5

/-- `ETH_TXBUFNB`. -/
def ethTxBufNb : Nat := 5

/-- The `OWN` bit: the descriptor belongs to the DMA. -/
def owned (d : EthDmaDesc) : Bool := d.status &&& descOwn != 0

/-- Replace one descriptor of a table. -/
def setDesc (tab : Nat → EthDmaDesc) (i : Nat) (d : EthDmaDesc) : Nat → EthDmaDesc :=
  fun j => if j = i then d else tab j

@[simp] theorem setDesc_self (tab : Nat → EthDmaDesc) (i : Nat) (d : EthDmaDesc) :
    setDesc tab i d i = d := if_pos rfl

@[simp] theorem setDesc_ne (tab : Nat → EthDmaDesc) {i j : Nat} (d : EthDmaDesc) (h : j ≠ i) :
    setDesc tab i d j = tab j := if_neg h

/-- A descriptor handed to the DMA by setting its status to `OWN`. -/
@[simp] theorem owned_own (cbs b1 b2 : Nat) : owned ⟨descOwn, cbs, b1, b2⟩ = true := by
  simp [owned, descOwn]

/-- A descriptor handed to the DMA by setting the `OWN` bit of its status. -/
@[simp] theorem owned_set (st : BitVec 32) (cbs b1 b2 : Nat) :
    owned ⟨st ||| descOwn, cbs, b1, b2⟩ = true := by
  have : (st ||| descOwn) &&& descOwn ≠ 0 := by
    intro h
    have h31 := congrArg (fun x => x.getLsbD 31) h
    simp [descOwn] at h31
  simpa [owned] using this

/-- A descriptor given back by clearing the `OWN` bit of its status. -/
@[simp] theorem owned_cleared (st : BitVec 32) (cbs b1 b2 : Nat) :
    owned ⟨st &&& ~~~descOwn, cbs, b1, b2⟩ = false := by
  have : st &&& ~~~descOwn &&& descOwn = 0 := by
    rw [BitVec.and_assoc, BitVec.and_comm (~~~descOwn), BitVec.and_not_self]
    exact BitVec.and_zero
  simp [owned, this]

/-! ## Reception -/

/-- The receive side: `DMARxDscrTab`, `DMARxDescToGet`, `Rx_Buff`, the cursor of the DMA, the `RBUS`
bit of `ETH->DMASR`, and the chains given to `netif->input` so far. -/
structure EthRx where
  desc : Nat → EthDmaDesc
  dmaRxDescToGet : Nat
  rxBuff : Nat → UInt8
  dmaCursor : Nat
  rbus : Bool
  input : List (List (List UInt8))

/-- `ETH_DMARxDescChainInit(DMARxDscrTab, Rx_Buff, RxBuffCount)`; the DMA starts at the head of the
list (`DMARDLAR`). -/
def ethDmaRxDescChainInit (rxBuffCount : Nat) (s : EthRx) : EthRx :=
  { s with
    dmaRxDescToGet := 0
    dmaCursor := 0
    desc := fun i =>
      if i < rxBuffCount then
        { status := descOwn
          controlBufferSize := rxDescRch ||| ethBufSize
          buffer1Addr := i * ethBufSize
          buffer2NextDescAddr := if i < rxBuffCount - 1 then i + 1 else 0 }
      else s.desc i }

/-- `ETH_GetDMARxDescFrameLength`. -/
def ethGetDmaRxDescFrameLength (d : EthDmaDesc) : BitVec 32 := (d.status &&& rxDescFl) >>> 16

/-- `ETH_GetRxPktSize`: the frame length of a completed last descriptor without error. -/
def ethGetRxPktSize (d : EthDmaDesc) : BitVec 32 :=
  if d.status &&& descOwn = 0 ∧ d.status &&& rxDescEs = 0 ∧ d.status &&& rxDescLs ≠ 0 then
    ethGetDmaRxDescFrameLength d
  else 0

/-- `FrameTypeDef`; the descriptor is `NULL` when the one asked for is still owned by the DMA. -/
structure FrameType where
  length : BitVec 32
  buffer : Nat
  descriptor : Option Nat

/-- `ETH_Rx_Packet`. -/
def ethRxPacket (s : EthRx) : FrameType × EthRx :=
  let d := s.desc s.dmaRxDescToGet
  if d.status &&& descOwn ≠ 0 then (⟨0, 0, none⟩, { s with rbus := false })
  else
    let good := d.status &&& rxDescEs = 0 ∧ d.status &&& rxDescLs ≠ 0 ∧ d.status &&& rxDescFs ≠ 0
    let frame : FrameType :=
      { length := if good then ((d.status &&& rxDescFl) >>> 16) - 4 else 0
        buffer := if good then d.buffer1Addr else 0
        descriptor := some s.dmaRxDescToGet }
    (frame, { s with dmaRxDescToGet := d.buffer2NextDescAddr })

/-- The copy loop of `low_level_input`: each `pbuf` of the chain takes its `len` bytes in turn. -/
def copyFromBuffer (buff : Nat → UInt8) : Nat → List Nat → List (List UInt8)
  | _, [] => []
  | l, len :: lens => readRun buff l len :: copyFromBuffer buff (l + len) lens

/-- `low_level_input`. `alloc` is what `pbuf_alloc(PBUF_RAW, len, PBUF_POOL)` returns for the
requested length: `NULL`, or the `len` fields of the chain. -/
def lowLevelInput (alloc : Nat → Option (List Nat)) (s : EthRx) :
    Option (List (List UInt8)) × EthRx :=
  let r := ethRxPacket s
  let len := r.1.length.toNat % 2 ^ 16
  let p := (alloc len).map (copyFromBuffer r.2.rxBuff r.1.buffer)
  match r.1.descriptor with
  | some d => (p, { r.2 with
      desc := setDesc r.2.desc d { r.2.desc d with status := descOwn }
      rbus := false })
  | none => (p, { r.2 with rbus := false })

/-- `ethernetif_input`: hand the chain to the stack. A chain the stack refuses is freed, which
leaves the ring as it is. -/
def ethernetifInput (alloc : Nat → Option (List Nat)) (s : EthRx) : EthRx :=
  match lowLevelInput alloc s with
  | (none, s) => s
  | (some p, s) => { s with input := s.input ++ [p] }

/-- The `while` of `ETH_IRQHandler`, at most `fuel` times round; `allocs k` answers the `k`-th
`pbuf_alloc`. -/
def ethIrqLoop (allocs : Nat → Nat → Option (List Nat)) : Nat → Nat → EthRx → EthRx
  | 0, _, s => s
  | fuel + 1, k, s =>
    if ethGetRxPktSize (s.desc s.dmaRxDescToGet) ≠ 0 then
      ethIrqLoop allocs fuel (k + 1) (ethernetifInput (allocs k) s)
    else s

/-- `ETH_IRQHandler`. Every round gives one descriptor back, so `RxBuffCount` rounds are enough
(`ethIrqHandler_exits`). -/
def ethIrqHandler (rxBuffCount : Nat) (allocs : Nat → Nat → Option (List Nat)) (s : EthRx) :
    EthRx :=
  ethIrqLoop allocs rxBuffCount 0 s

/-- The DMA completes the descriptor at its cursor, if it owns it, with a status of its choice and
the bytes it received; otherwise reception is suspended (`RBUS`). -/
def dmaRxStep (status : BitVec 32) (data : List UInt8) (s : EthRx) : EthRx :=
  let d := s.desc s.dmaCursor
  if owned d then
    { s with
      desc := setDesc s.desc s.dmaCursor { d with status := status &&& ~~~descOwn }
      rxBuff := blit s.rxBuff d.buffer1Addr (data.take ethBufSize)
      dmaCursor := d.buffer2NextDescAddr }
  else { s with rbus := true }

/-! ## Transmission -/

/-- The transmit side: `DMATxDscrTab`, `DMATxDescToSet`, `Tx_Buff`, the cursor of the DMA, the
`TBUS` bit, and the frames put on the wire so far. -/
structure EthTx where
  desc : Nat → EthDmaDesc
  dmaTxDescToSet : Nat
  txBuff : Nat → UInt8
  dmaCursor : Nat
  tbus : Bool
  emitted : List (List UInt8)

/-- `ETH_DMATxDescChainInit(DMATxDscrTab, Tx_Buff, TxBuffCount)`, followed by the checksum
configuration of `low_level_init` (`ETH_DMATxDescChecksumInsertionConfig` on every descriptor). -/
def ethDmaTxDescChainInit (txBuffCount : Nat) (s : EthTx) : EthTx :=
  { s with
    dmaTxDescToSet := 0
    dmaCursor := 0
    desc := fun i =>
      if i < txBuffCount then
        { s.desc i with
          status := txDescTch ||| txDescChecksum
          buffer1Addr := i * ethBufSize
          buffer2NextDescAddr := if i < txBuffCount - 1 then i + 1 else 0 }
      else s.desc i }

/-- `ETH_Tx_Packet`: `none` is `ETH_ERROR`, the descriptor is still owned by the DMA. -/
def ethTxPacket (frameLength : Nat) (s : EthTx) : Option EthTx :=
  let d := s.desc s.dmaTxDescToSet
  if owned d then none
  else some { s with
    desc := setDesc s.desc s.dmaTxDescToSet
      { d with
        controlBufferSize := frameLength &&& txDescTbs1
        status := d.status ||| txDescLsFs ||| descOwn }
    tbus := false
    dmaTxDescToSet := d.buffer2NextDescAddr }

/-- `ETH_GetCurrentTxBuffer`. -/
def ethGetCurrentTxBuffer (s : EthTx) : Nat := (s.desc s.dmaTxDescToSet).buffer1Addr

/-- The copy loop of `low_level_output`: the buffer and the length after every `pbuf`. -/
def copyToBuffer (buffer : Nat) : List (List UInt8) → (Nat → UInt8) → Nat → (Nat → UInt8) × Nat
  | [], buff, l => (buff, l)
  | q :: p, buff, l => copyToBuffer buffer p (blit buff (buffer + l) q) (l + q.length)

/-- `low_level_output`: the chain is copied into the current buffer before `ETH_Tx_Packet` looks at
the `OWN` bit. -/
def lowLevelOutput (p : List (List UInt8)) (s : EthTx) : ErrT × EthTx :=
  let r := copyToBuffer (ethGetCurrentTxBuffer s) p s.txBuff 0
  let s := { s with txBuff := r.1 }
  match ethTxPacket (r.2 % 2 ^ 16) s with
  | none => (.mem, s)
  | some s => (.ok, s)

/-- The frame a descriptor describes: the first `ControlBufferSize` bytes of its buffer. -/
def txFrame (s : EthTx) (i : Nat) : List UInt8 :=
  readRun s.txBuff (s.desc i).buffer1Addr (s.desc i).controlBufferSize

/-- The DMA sends the frame at its cursor, if it owns the descriptor, and gives it back. -/
def dmaTxStep (s : EthTx) : EthTx :=
  let d := s.desc s.dmaCursor
  if owned d then
    { s with
      emitted := s.emitted ++ [txFrame s s.dmaCursor]
      desc := setDesc s.desc s.dmaCursor { d with status := d.status &&& ~~~descOwn }
      dmaCursor := d.buffer2NextDescAddr }
  else { s with tbus := true }

end Stm32F407.Eth
