import Mathlib.Data.List.Basic
import Mathlib.Logic.Function.Basic

/-!
# The bit-banged I2C bus: `i2c.c`, `at24c02.c` and `mpu6050.c`

Model of the bus primitives `IIC_Start`, `IIC_Stop`, `IIC_TxReply`, `IIC_RxReply`, `IIC_Send_Byte`
and `IIC_Read_Byte`, and of the two drivers' transfers on them: `AT24C02_Tx_Data`,
`AT24C02_Rx_Data`, `MPU6050_Tx_Data` and `MPU6050_Rx_Data`, with `MPU6050_GetGyroscope` and
`MPU6050_GetAccelerometer` on the last.

* The master acts on the bus by writing three things: the mode of the SDA pin, its output latch and
  the SCL pin. These writes, with the primitive that made them, are the trace of the bus.
* The slave is a parameter with a state of its own: it sees every write, and answers every read of
  SDA. The reads of one reply, or of one byte, are numbered from 0.
* Delays are left out; the order of the writes is all that is kept.
-/

namespace Stm32F407.I2c

/-- A write of the master: the mode of the SDA pin (`true` is output), its latch, or SCL. -/
inductive PinOp where
  | mode (tx : Bool)
  | sda (level : Bool)
  | scl (level : Bool)
deriving DecidableEq, Repr

/-- The primitive a write belongs to: `IIC_Start`, `IIC_Stop`, the eight bits of `IIC_Send_Byte` and
`IIC_Read_Byte`, or one of the two replies. -/
inductive Src where
  | start
  | stop
  | byte
  | reply
deriving DecidableEq, Repr

/-- A slave: how it takes a write of the master, and what the master reads on SDA at the `j`-th read
of a reply or of a byte. -/
structure Slave (σ : Type) where
  pin : σ → PinOp → σ
  sample : σ → Nat → Bool × σ

/-- The bus: the slave's state and the master's writes so far. -/
structure Bus (σ : Type) where
  slave : σ
  trace : List (Src × PinOp)

variable {σ : Type}

/-- The master writes. -/
def Bus.puts (S : Slave σ) (src : Src) (ops : List PinOp) (b : Bus σ) : Bus σ where
  slave := ops.foldl S.pin b.slave
  trace := b.trace ++ ops.map fun op => (src, op)

/-- The master reads SDA. -/
def Bus.sample (S : Slave σ) (j : Nat) (b : Bus σ) : Bool × Bus σ :=
  ((S.sample b.slave j).1, { b with slave := (S.sample b.slave j).2 })

/-! ## The primitives -/

/-- `IIC_Start`. -/
def iicStart (S : Slave σ) (b : Bus σ) : Bus σ :=
  b.puts S .start [.mode true, .sda true, .scl true, .sda false, .scl false]

/-- `IIC_Stop`. -/
def iicStop (S : Slave σ) (b : Bus σ) : Bus σ :=
  b.puts S .stop [.mode true, .scl false, .sda false, .scl true, .sda true]

/-- `IIC_TxReply`. -/
def iicTxReply (S : Slave σ) (res : Bool) (b : Bus σ) : Bus σ :=
  b.puts S .reply [.scl false, .mode true, .sda (!res), .scl true, .scl false]

/-- The polling loop of `IIC_RxReply` with `n` more reads before `ReplyTime` passes 250: `true` when
a read finds SDA low. -/
def rxReplyLoop (S : Slave σ) : Nat → Bus σ → Bool × Bus σ
  | 0, b => (false, b)
  | n + 1, b =>
    let r := b.sample S (250 - n)
    if r.1 then rxReplyLoop S n r.2 else (true, r.2)

/-- `IIC_RxReply`: without an acknowledge it makes a STOP of its own. -/
def iicRxReply (S : Slave σ) (b : Bus σ) : Bool × Bus σ :=
  let r := rxReplyLoop S 251 (b.puts S .reply [.mode false, .sda true, .scl true])
  if r.1 then (true, r.2.puts S .reply [.scl false]) else (false, iicStop S r.2)

/-- The loop of `IIC_Send_Byte`, for `n` more bits. -/
def sendBits (S : Slave σ) : Nat → BitVec 8 → Bus σ → Bus σ
  | 0, _, b => b
  | n + 1, data, b =>
    sendBits S n (data <<< 1) (b.puts S .byte [.sda data.msb, .scl true, .scl false])

/-- `IIC_Send_Byte`. -/
def iicSendByte (S : Slave σ) (data : BitVec 8) (b : Bus σ) : Bool × Bus σ :=
  iicRxReply S (sendBits S 8 data (b.puts S .byte [.mode true]))

/-- The loop of `IIC_Read_Byte`, for `n` more bits. -/
def readBits (S : Slave σ) : Nat → BitVec 8 → Bus σ → BitVec 8 × Bus σ
  | 0, rxData, b => (rxData, b)
  | n + 1, rxData, b =>
    let r := (b.puts S .byte [.scl false, .scl true]).sample S (7 - n)
    readBits S n (if r.1 then (rxData <<< 1) + 1 else rxData <<< 1) r.2

/-- `IIC_Read_Byte`. `RxData` is not initialised, but its eight bits are all shifted out. -/
def iicReadByte (S : Slave σ) (isAck : Bool) (b : Bus σ) : BitVec 8 × Bus σ :=
  let r := readBits S 8 0 (b.puts S .byte [.mode false])
  (r.1, iicTxReply S isAck r.2)

/-! ## AT24C02 -/

/-- `IIC_DATA_SIZE_MAX`. -/
def iicDataSizeMax : Nat := 32

/-- The device address byte of `AT24C02_Tx_Data` and `AT24C02_Rx_Data`. -/
def at24c02Device (addr index : Nat) : BitVec 8 := BitVec.ofNat 8 (0xA0 + (addr + index) / 256 * 2)

/-- The word address byte. -/
def at24c02Word (addr index : Nat) : BitVec 8 := BitVec.ofNat 8 ((addr + index) % 256)

/-- The body of the loop of `AT24C02_Tx_Data`: the last of the three replies is what counts. -/
def at24c02TxBody (S : Slave σ) (data : Nat → BitVec 8) (addr index : Nat) (b : Bus σ) :
    Bool × Bus σ :=
  let b := iicStart S b
  let b := (iicSendByte S (at24c02Device addr index) b).2
  let b := (iicSendByte S (at24c02Word addr index) b).2
  let r := iicSendByte S (data index) b
  (r.1, iicStop S r.2)

/-- The loop of `AT24C02_Tx_Data`, for `n` more bytes. -/
def at24c02TxLoop (S : Slave σ) (data : Nat → BitVec 8) (addr : Nat) :
    Nat → Nat → Bool → Bus σ → Bool × Bus σ
  | 0, _, res, b => (res, b)
  | n + 1, index, res, b =>
    if res then
      let r := at24c02TxBody S data addr index b
      at24c02TxLoop S data addr n (index + 1) r.1 r.2
    else (res, b)

/-- `AT24C02_Tx_Data`; the size it checks is that of a pointer, 4. -/
def at24c02TxData (S : Slave σ) (data : Nat → BitVec 8) (addr txLen : Nat) (b : Bus σ) :
    Bool × Bus σ :=
  if 4 > iicDataSizeMax then (false, b) else at24c02TxLoop S data addr txLen 0 true b

/-- The body of the loop of `AT24C02_Rx_Data`: the result, the byte read and the bus. -/
def at24c02RxBody (S : Slave σ) (addr index : Nat) (b : Bus σ) : Bool × BitVec 8 × Bus σ :=
  let b := iicStart S b
  let b := (iicSendByte S (at24c02Device addr index) b).2
  let b := (iicSendByte S (at24c02Word addr index) b).2
  let b := iicStart S b
  let r := iicSendByte S 0xA1 b
  let d := iicReadByte S false r.2
  (r.1, d.1, iicStop S d.2)

/-- The loop of `AT24C02_Rx_Data`, for `n` more bytes; `buff` is the caller's buffer. -/
def at24c02RxLoop (S : Slave σ) (addr : Nat) :
    Nat → Nat → Bool → (Nat → BitVec 8) → Bus σ → Bool × (Nat → BitVec 8) × Bus σ
  | 0, _, res, buff, b => (res, buff, b)
  | n + 1, index, res, buff, b =>
    if res then
      let r := at24c02RxBody S addr index b
      at24c02RxLoop S addr n (index + 1) r.1 (Function.update buff index r.2.1) r.2.2
    else (res, buff, b)

/-- `AT24C02_Rx_Data`. -/
def at24c02RxData (S : Slave σ) (addr rxLen : Nat) (buff : Nat → BitVec 8) (b : Bus σ) :
    Bool × (Nat → BitVec 8) × Bus σ :=
  if rxLen > iicDataSizeMax then (false, buff, b) else at24c02RxLoop S addr rxLen 0 true buff b

/-! ## MPU6050 -/

/-- `(MPU6050_DEV_ADDR<<1) | MPU6050_WRITE_CMD`. -/
def mpu6050Write : BitVec 8 := (0x68#8 <<< 1) ||| 0#8

/-- `(MPU6050_DEV_ADDR<<1) | MPU6050_READ_CMD`. -/
def mpu6050Read : BitVec 8 := (0x68#8 <<< 1) ||| 1#8

/-- What `MPU6050_Tx_Data` and `MPU6050_Rx_Data` begin with: START, the write address, the register
and the read address, without a second START. -/
def mpu6050Open (S : Slave σ) (addr : Nat) (b : Bus σ) : Bool × Bus σ :=
  let b := iicStart S b
  let b := (iicSendByte S mpu6050Write b).2
  let b := (iicSendByte S (BitVec.ofNat 8 addr) b).2
  iicSendByte S mpu6050Read b

/-- The loop of `MPU6050_Tx_Data`, for `n` more bytes. -/
def mpu6050TxLoop (S : Slave σ) (data : Nat → BitVec 8) : Nat → Nat → Bool → Bus σ → Bool × Bus σ
  | 0, _, res, b => (res, b)
  | n + 1, index, res, b =>
    if res then
      let r := iicSendByte S (data index) b
      mpu6050TxLoop S data n (index + 1) r.1 r.2
    else (res, b)

/-- `MPU6050_Tx_Data`. -/
def mpu6050TxData (S : Slave σ) (data : Nat → BitVec 8) (addr txLen : Nat) (b : Bus σ) :
    Bool × Bus σ :=
  let r := mpu6050Open S addr b
  if !r.1 then (false, iicStop S r.2)
  else
    let r := mpu6050TxLoop S data txLen 0 r.1 r.2
    (r.1, iicStop S r.2)

/-- The loop of `MPU6050_Rx_Data`, for `n` more bytes: the byte at index 1 is not acknowledged, the
others are. `Res` does not change. -/
def mpu6050RxLoop (S : Slave σ) :
    Nat → Nat → (Nat → BitVec 8) → Bus σ → (Nat → BitVec 8) × Bus σ
  | 0, _, buff, b => (buff, b)
  | n + 1, index, buff, b =>
    let r := iicReadByte S (index != 1) b
    mpu6050RxLoop S n (index + 1) (Function.update buff index r.1) r.2

/-- `MPU6050_Rx_Data`. -/
def mpu6050RxData (S : Slave σ) (addr rxLen : Nat) (buff : Nat → BitVec 8) (b : Bus σ) :
    Bool × (Nat → BitVec 8) × Bus σ :=
  let r := mpu6050Open S addr b
  if !r.1 then (false, buff, iicStop S r.2)
  else
    let d := mpu6050RxLoop S rxLen 0 buff r.2
    (r.1, d.1, iicStop S d.2)

/-- The three `short` a getter fills in. -/
structure Axes where
  x : BitVec 16
  y : BitVec 16
  z : BitVec 16
deriving DecidableEq, Repr

/-- `((uint16_t)Hi<<8)|Lo`. -/
def mpu6050Short (hi lo : BitVec 8) : BitVec 16 := (hi.setWidth 16 <<< 8) ||| lo.setWidth 16

/-- The body of the two getters, for the six registers from `reg` on. `RxBuff` is not initialised,
but all of it is written before it is read. -/
def mpu6050GetAxes (reg : Nat) (S : Slave σ) (axes : Axes) (b : Bus σ) : Bool × Axes × Bus σ :=
  let r := mpu6050RxData S reg 6 (fun _ => 0) b
  if r.1 then
    (r.1, { x := mpu6050Short (r.2.1 0) (r.2.1 1)
            y := mpu6050Short (r.2.1 2) (r.2.1 3)
            z := mpu6050Short (r.2.1 4) (r.2.1 5) }, r.2.2)
  else (r.1, axes, r.2.2)

/-- `MPU6050_GetGyroscope`; its first register is `MPU6050_GYRO_XOUTH_REG`. -/
def mpu6050GetGyroscope (S : Slave σ) (axes : Axes) (b : Bus σ) : Bool × Axes × Bus σ :=
  mpu6050GetAxes 0x43 S axes b

/-- `MPU6050_GetAccelerometer`; its first register is `MPU6050_ACCEL_XOUTH_REG`. -/
def mpu6050GetAccelerometer (S : Slave σ) (axes : Axes) (b : Bus σ) : Bool × Axes × Bus σ :=
  mpu6050GetAxes 0x3B S axes b

end Stm32F407.I2c
