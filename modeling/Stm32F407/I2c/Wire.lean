import Stm32F407.I2c.Bus
import Stm32F407.Lib.Words

/-!
# A slave on the wire

`Device` is a slave as it deals with whole bytes: what START, STOP and a finished byte do to it,
which byte it is sending, if any, and whether it acknowledges the one it has taken. `Wire` puts any
such device on the two lines: SDA is low when the master or the device pulls it low, a change of SDA
while SCL is high is a START or a STOP, a rising edge of SCL takes a bit, and the falling edge of
the ninth clock ends the byte. The device also gets to know the level of SDA at the ninth clock,
which is the master's acknowledge when the device sends.

Each primitive of the driver is one operation of the device:
* `iicStart_wire`, `iicRestart_wire`, `iicStop_wire`, `iicSendByte_wire`: START, STOP and a byte,
  for a device that is not sending itself.
* `iicReadByte_wire`: the master reads the byte of a device that is sending. When nobody sends it
  reads ones, and the device takes them for a byte.

`Slave.Sim` is for a slave that keeps less than another one: the master cannot tell the two apart
(`Slave.Sim.sendByte` and so on), so what is known of the one holds of the other.
-/

namespace Stm32F407.I2c

open Stm32F407.Lib

/-- A slave byte by byte. -/
structure Device (κ : Type) where
  start : κ → κ
  stop : κ → κ
  /-- The byte it is sending, when it is. -/
  out : κ → Option (BitVec 8)
  /-- Whether it acknowledges the byte it has taken. -/
  acks : κ → BitVec 8 → Bool
  /-- The byte on the line is over; SDA was `low` at its ninth clock. -/
  took : κ → BitVec 8 → (low : Bool) → κ

/-- The byte on the line while the master reads: ones, when nobody pulls SDA low. -/
def Device.onLine {κ : Type} (D : Device κ) (k : κ) : BitVec 8 := (D.out k).getD (BitVec.allOnes 8)

theorem Device.onLine_getMsbD {κ : Type} (D : Device κ) (k : κ) {i : Nat} (hi : i < 8) :
    (D.onLine k).getMsbD i =
      match D.out k with
      | some d => d.getMsbD i
      | none => true := by
  have hones : ∀ i, i < 8 → (BitVec.allOnes 8).getMsbD i = true := by decide
  unfold onLine
  cases D.out k with
  | some d => rfl
  | none => exact hones i hi

/-- Whether the device pulls SDA low at the ninth clock. -/
def Device.replies {κ : Type} (D : Device κ) (k : κ) (d : BitVec 8) : Bool :=
  (D.out k).isNone && D.acks k d

/-- A device on the wire, with the pins of the master. `count` is the number of rising edges of SCL
since the byte began. -/
structure Wire (κ : Type) where
  dev : κ
  shift : BitVec 8
  low : Bool
  count : Nat
  mode : Bool
  latch : Bool
  scl : Bool

variable {κ : Type}

namespace Wire

/-- The clock the device is at: the one whose high level it is, or the next. -/
def slot (s : Wire κ) : Nat := if s.scl then s.count - 1 else s.count

variable (D : Device κ)

/-- Whether the device leaves SDA alone. -/
def drive (s : Wire κ) : Bool :=
  match D.out s.dev with
  | some d => decide (s.slot = 8) || d.getMsbD s.slot
  | none => decide (s.slot ≠ 8) || !D.acks s.dev s.shift

/-- The level of SDA. -/
def line (s : Wire κ) : Bool := (!s.mode || s.latch) && s.drive D

/-- The master has changed SDA from what it was at `s`. -/
def edge (s s' : Wire κ) : Wire κ :=
  if s.scl then
    if s.line D && !s'.line D then { s' with dev := D.start s'.dev, count := 0 }
    else if !s.line D && s'.line D then { s' with dev := D.stop s'.dev, count := 0 }
    else s'
  else s'

/-- A rising edge of SCL: SDA is taken in, and at the ninth clock looked at. -/
def rise (s : Wire κ) : Wire κ :=
  { s with
    scl := true
    shift := if s.count < 8 then s.shift.shiftConcat (s.line D) else s.shift
    low := if s.count = 8 then !s.line D else s.low
    count := s.count + 1 }

/-- A falling edge of SCL. -/
def fall (s : Wire κ) : Wire κ :=
  if s.count = 9 then { s with dev := D.took s.dev s.shift s.low, scl := false, count := 0 }
  else { s with scl := false }

/-- The device sees a write of the master. -/
def pin (s : Wire κ) : PinOp → Wire κ
  | .mode tx => s.edge D { s with mode := tx }
  | .sda level => s.edge D { s with latch := level }
  | .scl level => if level = s.scl then s else if level then s.rise D else s.fall D

/-- The bus is idle. -/
structure Ready (k : κ) (s : Wire κ) : Prop where
  dev : s.dev = k
  count : s.count = 0
  latch : s.latch = true
  scl : s.scl = true

/-- The bus is held between two bytes. -/
structure Between (k : κ) (s : Wire κ) : Prop where
  dev : s.dev = k
  count : s.count = 0
  scl : s.scl = false

end Wire

/-- The device as a slave: what the master reads is the level of SDA. -/
def onWire (D : Device κ) : Slave (Wire κ) where
  pin := Wire.pin D
  sample s _ := (s.line D, s)

namespace Wire

variable {D : Device κ} {k : κ} {s : Wire κ} {b : Bus (Wire κ)}

/-! ## Clocks -/

theorem puts_slave (src : Src) (ops : List PinOp) (b : Bus (Wire κ)) :
    (b.puts (onWire D) src ops).slave = ops.foldl (pin D) b.slave := rfl

/-- A clock of `IIC_Send_Byte` puts one bit into the register. -/
theorem pins_bit (hscl : s.scl = false) (hmode : s.mode = true) (hout : D.out s.dev = none)
    (hcount : s.count < 8) (x : Bool) :
    [.sda x, .scl true, .scl false].foldl (pin D) s =
      { s with latch := x, shift := s.shift.shiftConcat x, count := s.count + 1 } := by
  have hne8 : s.count ≠ 8 := by omega
  simp [pin, edge, rise, fall, line, drive, slot, hscl, hmode, hout, hcount, hne8]

/-- The clock of `IIC_RxReply`, up to its high level. -/
theorem pins_rxReply (hscl : s.scl = false) (hout : D.out s.dev = none) (hcount : s.count = 8) :
    [.mode false, .sda true, .scl true].foldl (pin D) s =
      { s with
        mode := false
        latch := true
        scl := true
        low := D.acks s.dev s.shift
        count := 9 } := by
  simp [pin, edge, rise, line, drive, slot, hscl, hout, hcount]

/-- A clock of `IIC_Read_Byte`. -/
theorem pins_read (hmode : s.mode = false) (hcount : s.count < 8) :
    [.scl false, .scl true].foldl (pin D) s =
      { s with
        scl := true
        shift := s.shift.shiftConcat ((D.onLine s.dev).getMsbD s.count)
        count := s.count + 1 } := by
  have hne8 : s.count ≠ 8 := by omega
  have hne9 : s.count ≠ 9 := by omega
  rw [D.onLine_getMsbD _ hcount]
  cases hscl : s.scl <;> cases hout : D.out s.dev <;>
    simp [pin, rise, fall, line, drive, slot, hscl, hmode, hout, hcount, hne8, hne9]

/-- The clock of `IIC_TxReply`: SDA is low when the master acknowledges, or a device that is not
sending. -/
theorem pins_txReply (hscl : s.scl = true) (hcount : s.count = 8) (res : Bool) :
    [.scl false, .mode true, .sda (!res), .scl true, .scl false].foldl (pin D) s =
      { s with
        dev := D.took s.dev s.shift (res || D.replies s.dev s.shift)
        low := res || D.replies s.dev s.shift
        mode := true
        latch := !res
        scl := false
        count := 0 } := by
  cases hout : D.out s.dev <;>
    simp [pin, edge, rise, fall, line, drive, slot, Device.replies, hscl, hout, hcount]

end Wire

open Wire

variable {D : Device κ} {k : κ} {b : Bus (Wire κ)}

/-! ## START and STOP -/

theorem iicStart_wire (h : Ready k b.slave) (hout : D.out k = none) :
    Between (D.start k) (iicStart (onWire D) b).slave := by
  obtain ⟨rfl, hcount, hlatch, hscl⟩ := h
  rw [iicStart, Wire.puts_slave]
  constructor <;> simp [pin, edge, fall, line, drive, slot, hout, hcount, hlatch, hscl]

theorem iicRestart_wire (h : Between k b.slave) (hout : D.out k = none) :
    Between (D.start k) (iicStart (onWire D) b).slave := by
  obtain ⟨rfl, hcount, hscl⟩ := h
  rw [iicStart, Wire.puts_slave]
  constructor <;> simp [pin, edge, rise, fall, line, drive, slot, hout, hcount, hscl]

theorem iicStop_wire (h : Between k b.slave) (hout : D.out k = none) :
    Ready (D.stop k) (iicStop (onWire D) b).slave := by
  obtain ⟨rfl, hcount, hscl⟩ := h
  rw [iicStop, Wire.puts_slave]
  constructor <;> simp [pin, edge, rise, line, drive, slot, hout, hcount, hscl]

/-! ## Bytes -/

/-- The loop of `IIC_Send_Byte` shifts the byte into the register of the device. -/
theorem sendBits_wire (n : Nat) (data : BitVec 8) (b : Bus (Wire κ)) (hscl : b.slave.scl = false)
    (hmode : b.slave.mode = true) (hout : D.out b.slave.dev = none)
    (hcount : b.slave.count + n = 8) :
    ∃ l, (sendBits (onWire D) n data b).slave =
      { b.slave with latch := l, shift := shiftIn n data b.slave.shift, count := 8 } := by
  induction n generalizing data b with
  | zero =>
    refine ⟨b.slave.latch, ?_⟩
    rw [sendBits, shiftIn, ← hcount]
    rfl
  | succ n ih =>
    have hbit := Wire.pins_bit hscl hmode hout (by omega) data.msb
    rw [← Wire.puts_slave .byte] at hbit
    obtain ⟨l, hl⟩ := ih (data <<< 1)
      (b.puts (onWire D) .byte [.sda data.msb, .scl true, .scl false])
      (by rw [hbit]; exact hscl) (by rw [hbit]; exact hmode) (by rw [hbit]; exact hout)
      (by rw [hbit]; dsimp only; omega)
    refine ⟨l, ?_⟩
    rw [sendBits, hl, hbit]
    rfl

theorem rxReplyLoop_wire (h : b.slave.line D = false) (n : Nat) :
    rxReplyLoop (onWire D) (n + 1) b = (true, b) := by
  have hsample : b.sample (onWire D) (250 - n) = (false, b) := by
    simp [Bus.sample, onWire, h]
  rw [rxReplyLoop, hsample]
  rfl

/-- **A byte that is sent**: the device takes it, and its acknowledge is the result. -/
theorem iicSendByte_wire (h : Between k b.slave) (hout : D.out k = none) {data : BitVec 8}
    (hack : D.acks k data = true) :
    (iicSendByte (onWire D) data b).1 = true ∧
      Between (D.took k data true) (iicSendByte (onWire D) data b).2.slave := by
  obtain ⟨rfl, hcount, hscl⟩ := h
  have hmode : (b.puts (onWire D) .byte [.mode true]).slave = { b.slave with mode := true } := by
    rw [Wire.puts_slave]
    simp [pin, edge, hscl]
  obtain ⟨l, hbits⟩ := sendBits_wire 8 data (b.puts (onWire D) .byte [.mode true])
    (by rw [hmode]; exact hscl) (by rw [hmode]) (by rw [hmode]; exact hout)
    (by rw [hmode, hcount])
  rw [shiftIn_width, hmode] at hbits
  have hreply := Wire.pins_rxReply (D := D)
    (s := (sendBits (onWire D) 8 data (b.puts (onWire D) .byte [.mode true])).slave)
    (by rw [hbits]; exact hscl) (by rw [hbits]; exact hout) (by rw [hbits])
  rw [← Wire.puts_slave .reply, hbits] at hreply
  have hlow : ((sendBits (onWire D) 8 data (b.puts (onWire D) .byte [.mode true])).puts (onWire D)
      .reply [.mode false, .sda true, .scl true]).slave.line D = false := by
    rw [hreply]
    simp [line, drive, slot, hout, hack]
  unfold iicSendByte iicRxReply
  rw [rxReplyLoop_wire hlow]
  refine ⟨rfl, ?_⟩
  simp only [if_true, Wire.puts_slave _ [.scl false], hreply]
  constructor <;> simp [pin, fall, hack]

/-- The loop of `IIC_Read_Byte` shifts the byte on the line into `RxData`, and into the register of
the device. -/
theorem readBits_wire (n : Nat) (rxData : BitVec 8) (b : Bus (Wire κ))
    (hmode : b.slave.mode = false) (hcount : b.slave.count + n = 8)
    (hscl : b.slave.scl = true ∨ 0 < n) :
    (readBits (onWire D) n rxData b).1 =
        shiftIn n (D.onLine b.slave.dev <<< b.slave.count) rxData ∧
      (readBits (onWire D) n rxData b).2.slave =
        { b.slave with
          scl := true
          shift := shiftIn n (D.onLine b.slave.dev <<< b.slave.count) b.slave.shift
          count := 8 } := by
  induction n generalizing rxData b with
  | zero =>
    obtain ⟨⟨dev, shift, low, count, mode, latch, scl⟩, trace⟩ := b
    obtain rfl : count = 8 := hcount
    obtain rfl : scl = true := hscl.resolve_right (Nat.lt_irrefl 0)
    exact ⟨rfl, rfl⟩
  | succ n ih =>
    have hclock := Wire.pins_read (D := D) hmode (by omega)
    rw [← Wire.puts_slave .byte] at hclock
    have hmsb : (D.onLine b.slave.dev).getMsbD b.slave.count =
        (D.onLine b.slave.dev <<< b.slave.count).msb := by
      simp [BitVec.msb]
    have hbit : (b.puts (onWire D) .byte [.scl false, .scl true]).slave.line D =
        (D.onLine b.slave.dev <<< b.slave.count).msb := by
      have hne8 : b.slave.count ≠ 8 := by omega
      rw [hclock, ← hmsb, D.onLine_getMsbD _ (by omega)]
      cases hout : D.out b.slave.dev with
      | none => simp [line, drive, slot, hmode, hout, hne8]
      | some d => simp [line, drive, slot, hmode, hout, hne8]
    have hsample : (b.puts (onWire D) .byte [.scl false, .scl true]).sample (onWire D) (7 - n) =
        ((D.onLine b.slave.dev <<< b.slave.count).msb,
          b.puts (onWire D) .byte [.scl false, .scl true]) := by
      rw [← hbit]
      rfl
    obtain ⟨hdata, hslave⟩ := ih
      (rxData.shiftConcat (D.onLine b.slave.dev <<< b.slave.count).msb)
      (b.puts (onWire D) .byte [.scl false, .scl true])
      (by rw [hclock]; exact hmode) (by rw [hclock]; dsimp only; omega) (.inl (by rw [hclock]))
    rw [readBits, hsample]
    dsimp only
    rw [shiftConcat_eq]
    constructor
    · rw [hdata, hclock, shiftIn]
      dsimp only
      rw [BitVec.shiftLeft_add]
    · rw [hslave, hclock, shiftIn, hmsb]
      dsimp only
      rw [BitVec.shiftLeft_add]

/-- **A byte that is read** is the byte on the line, and the device takes note of it. -/
theorem iicReadByte_wire (h : Between k b.slave) (isAck : Bool) :
    (iicReadByte (onWire D) isAck b).1 = D.onLine k ∧
      Between (D.took k (D.onLine k) (isAck || D.replies k (D.onLine k)))
        (iicReadByte (onWire D) isAck b).2.slave := by
  obtain ⟨rfl, hcount, hscl⟩ := h
  have hmode : (b.puts (onWire D) .byte [.mode false]).slave = { b.slave with mode := false } := by
    rw [Wire.puts_slave]
    simp [pin, edge, hscl]
  obtain ⟨hdata, hslave⟩ := readBits_wire (D := D) 8 0 (b.puts (onWire D) .byte [.mode false])
    (by rw [hmode]) (by rw [hmode, hcount]) (.inr (by omega))
  rw [hmode] at hdata hslave
  simp only [hcount, BitVec.shiftLeft_zero, shiftIn_width] at hdata hslave
  unfold iicReadByte iicTxReply
  refine ⟨hdata, ?_⟩
  rw [Wire.puts_slave, hslave, Wire.pins_txReply rfl rfl]
  exact ⟨rfl, rfl, rfl⟩

/-! ## Two slaves with one behaviour -/

section Sim

variable {σ τ : Type} {S : Slave σ} {T : Slave τ} {φ : σ → τ}

/-- The bus with the slave's state seen through `φ`. -/
def Bus.map (φ : σ → τ) (b : Bus σ) : Bus τ := ⟨φ b.slave, b.trace⟩

/-- `T` is `S` seen through `φ`. -/
structure Slave.Sim (S : Slave σ) (T : Slave τ) (φ : σ → τ) : Prop where
  pin : ∀ s op, φ (S.pin s op) = T.pin (φ s) op
  sample : ∀ s j, T.sample (φ s) j = ((S.sample s j).1, φ (S.sample s j).2)

namespace Slave.Sim

theorem puts (h : S.Sim T φ) (src : Src) (ops : List PinOp) (b : Bus σ) :
    (b.map φ).puts T src ops = (b.puts S src ops).map φ := by
  have hops : ∀ s, ops.foldl T.pin (φ s) = φ (ops.foldl S.pin s) := by
    induction ops with
    | nil => exact fun _ => rfl
    | cons op ops ih =>
      intro s
      rw [List.foldl_cons, List.foldl_cons, ← h.pin, ih]
  rw [Bus.puts, Bus.map, hops]
  rfl

theorem bus_sample (h : S.Sim T φ) (j : Nat) (b : Bus σ) :
    (b.map φ).sample T j = ((b.sample S j).1, (b.sample S j).2.map φ) := by
  rw [Bus.sample, Bus.map, h.sample]
  rfl

theorem replyLoop (h : S.Sim T φ) (n : Nat) (b : Bus σ) :
    rxReplyLoop T n (b.map φ) = ((rxReplyLoop S n b).1, (rxReplyLoop S n b).2.map φ) := by
  induction n generalizing b with
  | zero => rfl
  | succ n ih =>
    rw [rxReplyLoop, rxReplyLoop, h.bus_sample]
    dsimp only
    split
    · exact ih _
    · rfl

theorem sendByte (h : S.Sim T φ) (data : BitVec 8) (b : Bus σ) :
    iicSendByte T data (b.map φ) =
      ((iicSendByte S data b).1, (iicSendByte S data b).2.map φ) := by
  have hbits : ∀ n data (b : Bus σ), sendBits T n data (b.map φ) = (sendBits S n data b).map φ := by
    intro n
    induction n with
    | zero => exact fun _ _ => rfl
    | succ n ih =>
      intro data b
      rw [sendBits, sendBits, h.puts, ih]
  rw [iicSendByte, iicSendByte, h.puts, hbits, iicRxReply, iicRxReply, h.puts, h.replyLoop]
  dsimp only
  split
  · rw [h.puts]
  · rw [iicStop, iicStop, h.puts]

theorem readByte (h : S.Sim T φ) (isAck : Bool) (b : Bus σ) :
    iicReadByte T isAck (b.map φ) =
      ((iicReadByte S isAck b).1, (iicReadByte S isAck b).2.map φ) := by
  have hbits : ∀ n rxData (b : Bus σ), readBits T n rxData (b.map φ) =
      ((readBits S n rxData b).1, (readBits S n rxData b).2.map φ) := by
    intro n
    induction n with
    | zero => exact fun _ _ => rfl
    | succ n ih =>
      intro rxData b
      rw [readBits, readBits, h.puts, h.bus_sample]
      exact ih _ _
  rw [iicReadByte, iicReadByte, h.puts, hbits, iicTxReply, iicTxReply]
  dsimp only
  rw [h.puts]

end Slave.Sim

end Sim

end Stm32F407.I2c
