import Stm32F407.I2c.Wire

/-!
# The AT24C02 drivers against the EEPROM

The slave of this file is the chip, in two layers. `Chip` is what it does with whole bytes: 256
cells, an address counter and where it is in a write or in a random read. `Eeprom` puts it on the
wire: SDA is low when the master or the chip pulls it low, a change of SDA while SCL is high is a
START or a STOP, a rising edge of SCL takes a bit into the shift register, and the falling edge of
the ninth clock ends the byte.

* `eeprom_sim`: the EEPROM is the chip as a `Device` on a `Wire`, so that each primitive of the
  driver is one operation of the chip (`iicStart_ready`, `iicSendByte_between` and the others).
* `at24c02TxLoop_ready`, `at24c02RxLoop_ready`: what a run of the two loops does to the cells and to
  the caller's buffer.
* `at24c02_round_trip`: what `AT24C02_Tx_Data` wrote, `AT24C02_Rx_Data` reads back.
-/

namespace Stm32F407.I2c

open Stm32F407.Lib

/-! ## The chip -/

/-- What the chip waits for: a START, the device address, the word address, the data byte of a
write, the STOP that makes the write, the eight clocks of a read, or the STOP after it. -/
inductive Phase where
  | idle
  | device
  | word
  | data
  | written (d : BitVec 8)
  | reading
  | sent
deriving DecidableEq, Repr

structure Chip where
  mem : BitVec 8 → BitVec 8
  ptr : BitVec 8
  phase : Phase

namespace Chip

/-- A START. -/
def start (c : Chip) : Chip := { c with phase := .device }

/-- A byte is done. -/
def took (d : BitVec 8) (c : Chip) : Chip :=
  match c.phase with
  | .device =>
    { c with phase := if d = 0xA0 then .word else if d = 0xA1 then .reading else .idle }
  | .word => { c with ptr := d, phase := .data }
  | .data => { c with phase := .written d }
  | .reading => { c with phase := .sent }
  | _ => { c with phase := .idle }

/-- A STOP: it is what makes a write. -/
def stop (c : Chip) : Chip :=
  match c.phase with
  | .written d => { c with mem := Function.update c.mem c.ptr d, phase := .idle }
  | _ => { c with phase := .idle }

theorem stop_idle (c : Chip) : c.stop.phase = .idle := by
  unfold stop
  split <;> rfl

end Chip

/-- The chip on the wire, with the pins of the master. `count` is the number of rising edges of SCL
since the byte began. -/
structure Eeprom where
  chip : Chip
  shift : BitVec 8
  count : Nat
  mode : Bool
  latch : Bool
  scl : Bool

namespace Eeprom

/-- The clock the chip is at: the one whose high level it is, or the next. -/
def slot (s : Eeprom) : Nat := if s.scl then s.count - 1 else s.count

/-- Whether the chip leaves SDA alone: it pulls it low for the zeros of a byte it sends, and at the
ninth clock of every byte it takes. -/
def drive (s : Eeprom) : Bool :=
  if s.chip.phase = .reading then
    decide (s.slot = 8) || (s.chip.mem s.chip.ptr).getMsbD s.slot
  else decide (s.slot ≠ 8)

/-- The level of SDA. -/
def line (s : Eeprom) : Bool := (!s.mode || s.latch) && s.drive

/-- The master has changed SDA from what it was at `s`. -/
def edge (s s' : Eeprom) : Eeprom :=
  if s.scl then
    if s.line && !s'.line then { s' with chip := s'.chip.start, count := 0 }
    else if !s.line && s'.line then { s' with chip := s'.chip.stop, count := 0 }
    else s'
  else s'

/-- A rising edge of SCL: SDA is taken in, but for the ninth clock. -/
def rise (s : Eeprom) : Eeprom :=
  { s with
    scl := true
    shift := if s.count < 8 then s.shift.shiftConcat s.line else s.shift
    count := s.count + 1 }

/-- A falling edge of SCL. -/
def fall (s : Eeprom) : Eeprom :=
  if s.count = 9 then { s with chip := s.chip.took s.shift, scl := false, count := 0 }
  else { s with scl := false }

/-- The chip sees a write of the master. -/
def pin (s : Eeprom) : PinOp → Eeprom
  | .mode tx => s.edge { s with mode := tx }
  | .sda level => s.edge { s with latch := level }
  | .scl level => if level = s.scl then s else if level then s.rise else s.fall

/-- The bus is idle. -/
structure Ready (c : Chip) (s : Eeprom) : Prop where
  chip : s.chip = c
  idle : c.phase = .idle
  count : s.count = 0
  latch : s.latch = true
  scl : s.scl = true

/-- The bus is held between two bytes. -/
structure Between (c : Chip) (s : Eeprom) : Prop where
  chip : s.chip = c
  count : s.count = 0
  scl : s.scl = false

end Eeprom

/-- The EEPROM as a slave: what the master reads is the level of SDA. -/
def eeprom : Slave Eeprom where
  pin := Eeprom.pin
  sample s _ := (s.line, s)

open Eeprom

variable {c : Chip} {s : Eeprom} {b : Bus Eeprom}

/-! ## The chip as a device -/

/-- The chip acknowledges every byte it takes, and sends the cell of the address counter. -/
def chipDevice : Device Chip where
  start := Chip.start
  stop := Chip.stop
  out c := if c.phase = .reading then some (c.mem c.ptr) else none
  acks _ _ := true
  took c d _ := c.took d

theorem chipDevice_out (h : c.phase ≠ .reading) : chipDevice.out c = none := if_neg h

/-- The chip has no use for the acknowledge of the master. -/
def ofWire (w : Wire Chip) : Eeprom := ⟨w.dev, w.shift, w.count, w.mode, w.latch, w.scl⟩

def toWire (s : Eeprom) : Wire Chip := ⟨s.chip, s.shift, false, s.count, s.mode, s.latch, s.scl⟩

theorem ofWire_line (w : Wire Chip) : (ofWire w).line = w.line chipDevice := by
  have hdrive : (ofWire w).drive = w.drive chipDevice := by
    unfold Eeprom.drive Wire.drive
    by_cases hphase : w.dev.phase = .reading
    · simp only [ofWire, chipDevice, hphase, if_true]
      rfl
    · simp only [ofWire, chipDevice, hphase, if_false]
      exact (Bool.or_false _).symm
  rw [Eeprom.line, hdrive]
  rfl

theorem ofWire_edge (w w' : Wire Chip) :
    ofWire (w.edge chipDevice w') = (ofWire w).edge (ofWire w') := by
  unfold Wire.edge Eeprom.edge
  rw [ofWire_line, ofWire_line]
  simp only [apply_ite ofWire]
  rfl

/-- The EEPROM is the chip on the wire. -/
theorem eeprom_sim : (onWire chipDevice).Sim eeprom ofWire where
  pin w op := by
    cases op with
    | mode tx => exact ofWire_edge w { w with mode := tx }
    | sda level => exact ofWire_edge w { w with latch := level }
    | scl level =>
      have hrise : ofWire (w.rise chipDevice) = (ofWire w).rise := by
        rw [Eeprom.rise, ofWire_line]
        rfl
      have hfall : ofWire (w.fall chipDevice) = (ofWire w).fall := by
        unfold Wire.fall Eeprom.fall
        exact apply_ite ofWire _ _ _
      simp only [onWire, eeprom, Wire.pin, Eeprom.pin, apply_ite ofWire, hrise, hfall]
      rfl
  sample w j := by
    simp only [eeprom, onWire, ofWire_line]

theorem Eeprom.Between.wire (h : Between c s) : Wire.Between c (toWire s) :=
  ⟨h.chip, h.count, h.scl⟩

theorem Eeprom.Ready.wire (h : Ready c s) : Wire.Ready c (toWire s) :=
  ⟨h.chip, h.count, h.latch, h.scl⟩

theorem Eeprom.Between.of_wire {w : Wire Chip} (h : Wire.Between c w) : Between c (ofWire w) :=
  ⟨h.dev, h.count, h.scl⟩

theorem map_toWire (b : Bus Eeprom) : (b.map toWire).map ofWire = b := rfl

/-! ## The primitives -/

theorem iicStart_ready (h : Ready c b.slave) : Between c.start (iicStart eeprom b).slave := by
  have hout : chipDevice.out c = none := chipDevice_out (by simp [h.idle])
  have hsim : iicStart eeprom b = (iicStart (onWire chipDevice) (b.map toWire)).map ofWire :=
    eeprom_sim.puts _ _ (b.map toWire)
  rw [hsim]
  exact .of_wire (iicStart_wire (b := b.map toWire) h.wire hout)

theorem iicStart_between (h : Between c b.slave) (hphase : c.phase ≠ .reading) :
    Between c.start (iicStart eeprom b).slave := by
  have hsim : iicStart eeprom b = (iicStart (onWire chipDevice) (b.map toWire)).map ofWire :=
    eeprom_sim.puts _ _ (b.map toWire)
  rw [hsim]
  exact .of_wire (iicRestart_wire (b := b.map toWire) h.wire (chipDevice_out hphase))

theorem iicStop_between (h : Between c b.slave) (hphase : c.phase ≠ .reading) :
    Ready c.stop (iicStop eeprom b).slave := by
  have hsim : iicStop eeprom b = (iicStop (onWire chipDevice) (b.map toWire)).map ofWire :=
    eeprom_sim.puts _ _ (b.map toWire)
  have hstop := iicStop_wire (b := b.map toWire) h.wire (chipDevice_out hphase)
  rw [hsim]
  exact ⟨hstop.dev, Chip.stop_idle c, hstop.count, hstop.latch, hstop.scl⟩

theorem iicSendByte_between (h : Between c b.slave) (hphase : c.phase ≠ .reading)
    (data : BitVec 8) :
    (iicSendByte eeprom data b).1 = true ∧
      Between (c.took data) (iicSendByte eeprom data b).2.slave := by
  have hacks : chipDevice.acks c data = true := rfl
  obtain ⟨hack, hbyte⟩ := iicSendByte_wire (b := b.map toWire) h.wire (chipDevice_out hphase) hacks
  have hsim := eeprom_sim.sendByte data (b.map toWire)
  rw [map_toWire] at hsim
  rw [hsim]
  exact ⟨hack, .of_wire hbyte⟩

theorem iicReadByte_between (h : Between c b.slave) (hphase : c.phase = .reading) :
    (iicReadByte eeprom false b).1 = c.mem c.ptr ∧
      Between { c with phase := .sent } (iicReadByte eeprom false b).2.slave := by
  obtain ⟨hdata, hbyte⟩ := iicReadByte_wire (D := chipDevice) (b := b.map toWire) h.wire false
  have hsim := eeprom_sim.readByte false (b.map toWire)
  rw [map_toWire] at hsim
  have hline : chipDevice.onLine c = c.mem c.ptr := by
    simp [Device.onLine, chipDevice, hphase]
  have htook : ∀ d low, chipDevice.took c d low = { c with phase := .sent } := by
    intro d low
    simp [chipDevice, Chip.took, hphase]
  rw [hsim, ← hline]
  rw [htook] at hbyte
  exact ⟨hdata, .of_wire hbyte⟩

/-! ## Transfers -/

theorem at24c02Device_eq {addr index : Nat} (h : addr + index < 256) :
    at24c02Device addr index = 0xA0 := by
  unfold at24c02Device
  rw [Nat.div_eq_of_lt h]
  rfl

theorem at24c02Word_eq {addr index : Nat} (h : addr + index < 256) :
    at24c02Word addr index = BitVec.ofNat 8 (addr + index) := by
  unfold at24c02Word
  rw [Nat.mod_eq_of_lt h]

/-- START, the device address and the word address set the address counter. -/
theorem at24c02Address_between {addr index : Nat} (hfit : addr + index < 256)
    (h : Ready c b.slave) :
    Between { c with ptr := BitVec.ofNat 8 (addr + index), phase := .data }
      (iicSendByte eeprom (at24c02Word addr index)
        (iicSendByte eeprom (at24c02Device addr index) (iicStart eeprom b)).2).2.slave := by
  have hdevice := (iicSendByte_between (iicStart_ready h) (by simp [Chip.start])
    (at24c02Device addr index)).2
  rw [at24c02Device_eq hfit] at hdevice ⊢
  have hword := (iicSendByte_between hdevice (by simp [Chip.start, Chip.took])
    (at24c02Word addr index)).2
  rw [at24c02Word_eq hfit] at hword ⊢
  exact hword

theorem at24c02TxBody_ready {addr index : Nat} (hfit : addr + index < 256)
    (data : Nat → BitVec 8) (h : Ready c b.slave) :
    (at24c02TxBody eeprom data addr index b).1 = true ∧
      Ready { mem := Function.update c.mem (BitVec.ofNat 8 (addr + index)) (data index)
              ptr := BitVec.ofNat 8 (addr + index)
              phase := .idle }
        (at24c02TxBody eeprom data addr index b).2.slave := by
  have hdata := iicSendByte_between (at24c02Address_between hfit h) (by simp) (data index)
  simp only [at24c02TxBody]
  exact ⟨hdata.1, iicStop_between hdata.2 (by simp [Chip.took])⟩

theorem at24c02RxBody_ready {addr index : Nat} (hfit : addr + index < 256)
    (h : Ready c b.slave) :
    (at24c02RxBody eeprom addr index b).1 = true ∧
      (at24c02RxBody eeprom addr index b).2.1 = c.mem (BitVec.ofNat 8 (addr + index)) ∧
      Ready { c with ptr := BitVec.ofNat 8 (addr + index) }
        (at24c02RxBody eeprom addr index b).2.2.slave := by
  have hstart := iicStart_between (at24c02Address_between hfit h) (by simp)
  have hread := iicSendByte_between hstart (by simp [Chip.start]) 0xA1
  have hbyte := iicReadByte_between hread.2 (by simp [Chip.start, Chip.took])
  have hstop := iicStop_between hbyte.2 (by simp)
  have hidle : { c with ptr := BitVec.ofNat 8 (addr + index), phase := .idle } =
      ({ c with ptr := BitVec.ofNat 8 (addr + index) } : Chip) := by
    rw [h.idle]
  simp only [at24c02RxBody, ← hidle]
  exact ⟨hread.1, hbyte.1, hstop⟩

/-- A run of the loop of `AT24C02_Tx_Data`: the cells from `addr + index` on take the data. -/
theorem at24c02TxLoop_ready (data : Nat → BitVec 8) (addr n index : Nat)
    (hfit : addr + index + n ≤ 256) (h : Ready c b.slave) :
    (at24c02TxLoop eeprom data addr n index true b).1 = true ∧
      ∃ p, Ready { mem := fun a => if addr + index ≤ a.toNat ∧ a.toNat < addr + index + n
                      then data (a.toNat - addr) else c.mem a
                   ptr := p
                   phase := .idle }
        (at24c02TxLoop eeprom data addr n index true b).2.slave := by
  induction n generalizing index c b with
  | zero =>
    have hmem : (fun a : BitVec 8 => if addr + index ≤ a.toNat ∧ a.toNat < addr + index + 0
        then data (a.toNat - addr) else c.mem a) = c.mem := by
      funext a
      exact if_neg (by omega)
    refine ⟨rfl, c.ptr, ?_⟩
    rw [hmem, ← h.idle]
    exact h
  | succ n ih =>
    have hlt : addr + index < 256 := by omega
    obtain ⟨hack, hbody⟩ := at24c02TxBody_ready hlt data h
    obtain ⟨hret, p, hready⟩ := ih (index + 1) (by omega) hbody
    rw [at24c02TxLoop, if_pos rfl]
    dsimp only
    rw [hack]
    refine ⟨hret, p, ?_⟩
    have hmem : (fun a : BitVec 8 => if addr + index ≤ a.toNat ∧ a.toNat < addr + index + (n + 1)
        then data (a.toNat - addr) else c.mem a) =
        fun a => if addr + (index + 1) ≤ a.toNat ∧ a.toNat < addr + (index + 1) + n
          then data (a.toNat - addr)
          else Function.update c.mem (BitVec.ofNat 8 (addr + index)) (data index) a := by
      funext a
      simp only [Function.update_apply, toNat_eq_iff hlt]
      by_cases ha : a.toNat = addr + index
      · rw [if_pos (by omega), if_neg (by omega), if_pos ha, ha, Nat.add_sub_cancel_left]
      · rw [if_neg ha]
        exact if_congr (by omega) rfl rfl
    rw [hmem]
    exact hready

/-- A run of the loop of `AT24C02_Rx_Data`: the buffer from `index` on takes the cells. -/
theorem at24c02RxLoop_ready (addr n index : Nat) (buff : Nat → BitVec 8)
    (hfit : addr + index + n ≤ 256) (h : Ready c b.slave) :
    (at24c02RxLoop eeprom addr n index true buff b).1 = true ∧
      (∀ i, (at24c02RxLoop eeprom addr n index true buff b).2.1 i =
        if index ≤ i ∧ i < index + n then c.mem (BitVec.ofNat 8 (addr + i)) else buff i) ∧
      ∃ p, Ready { c with ptr := p } (at24c02RxLoop eeprom addr n index true buff b).2.2.slave := by
  induction n generalizing index c b buff with
  | zero => exact ⟨rfl, fun i => (if_neg (by omega)).symm, c.ptr, h⟩
  | succ n ih =>
    have hlt : addr + index < 256 := by omega
    obtain ⟨hack, hbyte, hbody⟩ := at24c02RxBody_ready hlt h
    obtain ⟨hret, hbuff, hready⟩ := ih (index + 1)
      (Function.update buff index (at24c02RxBody eeprom addr index b).2.1) (by omega) hbody
    rw [at24c02RxLoop, if_pos rfl]
    dsimp only
    rw [hack]
    refine ⟨hret, ?_, hready⟩
    intro i
    rw [hbuff, hbyte, Function.update_apply]
    by_cases hi : i = index
    · rw [if_neg (by omega), if_pos hi, if_pos (by omega), hi]
    · rw [if_neg hi]
      exact if_congr (by omega) rfl rfl

/-- What a write of `len` bytes at `addr`, and a read of them after it, do on the bus `b`. -/
structure RoundTrip (data buff : Nat → BitVec 8) (addr len : Nat) (b : Bus Eeprom) : Prop where
  sends : (at24c02TxData eeprom data addr len b).1 = true
  cells : ∀ a, (at24c02TxData eeprom data addr len b).2.slave.chip.mem a =
    if addr ≤ a.toNat ∧ a.toNat < addr + len then data (a.toNat - addr) else b.slave.chip.mem a
  reads : (at24c02RxData eeprom addr len buff (at24c02TxData eeprom data addr len b).2).1 = true
  buffer : ∀ i,
    (at24c02RxData eeprom addr len buff (at24c02TxData eeprom data addr len b).2).2.1 i =
      if i < len then data i else buff i
  unchanged :
    (at24c02RxData eeprom addr len buff
      (at24c02TxData eeprom data addr len b).2).2.2.slave.chip.mem =
      (at24c02TxData eeprom data addr len b).2.slave.chip.mem

/-- From an idle bus, whatever the cells, the address counter and the buffers hold. -/
theorem at24c02_round_trip (data buff : Nat → BitVec 8) (addr len : Nat) (b : Bus Eeprom)
    (h : Ready b.slave.chip b.slave) (hlen : len ≤ iicDataSizeMax) (hfit : addr + len ≤ 256) :
    RoundTrip data buff addr len b := by
  obtain ⟨hsend, p, hready⟩ := at24c02TxLoop_ready data addr len 0 (by omega) h
  obtain ⟨hread, hbuff, q, hready'⟩ := at24c02RxLoop_ready addr len 0 buff (by omega) hready
  have htx : at24c02TxData eeprom data addr len b = at24c02TxLoop eeprom data addr len 0 true b :=
    if_neg (by decide)
  have hrx (b : Bus Eeprom) :
      at24c02RxData eeprom addr len buff b = at24c02RxLoop eeprom addr len 0 true buff b :=
    if_neg (by omega)
  refine ⟨?_, ?_, ?_, ?_, ?_⟩
  · rw [htx, hsend]
  · intro a
    rw [htx, hready.chip]
    rfl
  · rw [htx, hrx, hread]
  · intro i
    rw [htx, hrx, hbuff]
    by_cases hi : i < len
    · have haddr : (BitVec.ofNat 8 (addr + i)).toNat = addr + i :=
        (toNat_eq_iff (by omega)).1 rfl
      rw [if_pos (by omega), if_pos hi]
      dsimp only
      rw [haddr, if_pos (by omega), Nat.add_sub_cancel_left]
    · rw [if_neg (by omega), if_neg hi]
  · rw [htx, hrx, hready'.chip, hready.chip]

/-- Four bytes at the end of an erased chip. -/
theorem at24c02_round_trip_last_cells :
    RoundTrip (fun i => BitVec.ofNat 8 (17 * i)) (fun _ => 0) 252 4
      ⟨⟨⟨fun _ => 0xFF, 0, .idle⟩, 0, 0, true, true, true⟩, []⟩ :=
  at24c02_round_trip _ _ 252 4 _ ⟨rfl, rfl, rfl, rfl, rfl⟩ (by decide) (by decide)

end Stm32F407.I2c
