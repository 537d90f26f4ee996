import Stm32F407.I2c.Trace
import Stm32F407.I2c.Wire

/-!
# The MPU6050 drivers against a register file

The slave of this file is a register file at `MPU6050_DEV_ADDR`: the first byte after START and the
write address is the register pointer, every later byte of the transaction is stored at the pointer,
which moves on; after START and the read address it sends the registers from the pointer on, as long
as the master acknowledges.

`MPU6050_Tx_Data` and `MPU6050_Rx_Data` send the read address without a second START (it is
commented out), so the slave takes it for the first byte of a write:
* `mpu6050TxData_regs`: the read address is stored at `Addr` and the data one register further on.
* `mpu6050RxData_regs`: the slave never sends. The master reads ones, which the slave stores.
* `mpu6050_write_iff`: a write does what it should iff all its bytes are the read address and the
  register behind the last one holds it already.
* `mpu6050_read_never`: no read does what it should. Besides, the byte that is not acknowledged is
  the second one, and not the last.
-/

namespace Stm32F407.I2c

open Stm32F407.Lib Wire

/-! ## The slave -/

/-- What the register file waits for: a START, the device address, the register pointer, bytes to
store, the clocks of a byte it sends, or, after a byte that was not acknowledged, a STOP. -/
inductive RegPhase where
  | idle
  | device
  | pointer
  | store
  | send
  | released
deriving DecidableEq, Repr

structure RegFile where
  regs : BitVec 8 → BitVec 8
  ptr : BitVec 8
  phase : RegPhase

/-- A byte is over. -/
def RegFile.took (r : RegFile) (d : BitVec 8) (low : Bool) : RegFile :=
  match r.phase with
  | .device =>
    { r with
      phase := if d = mpu6050Write then .pointer else if d = mpu6050Read then .send else .idle }
  | .pointer => { r with ptr := d, phase := .store }
  | .store => { r with regs := Function.update r.regs r.ptr d, ptr := r.ptr + 1 }
  | .send => if low then { r with ptr := r.ptr + 1 } else { r with phase := .released }
  | _ => r

/-- The register file. It acknowledges its address and every byte of a write. -/
def registerFile : Device RegFile where
  start r := { r with phase := .device }
  stop r := { r with phase := .idle }
  out r := if r.phase = .send then some (r.regs r.ptr) else none
  acks r d :=
    match r.phase with
    | .device => d == mpu6050Write || d == mpu6050Read
    | .pointer => true
    | .store => true
    | _ => false
  took := RegFile.took

-- with a second START before the read address it would send the register
example (r : RegFile) (a : BitVec 8) :
    let ptr := registerFile.took (registerFile.took (registerFile.start r) mpu6050Write true) a true
    registerFile.out (registerFile.took (registerFile.start ptr) mpu6050Read true) =
      some (r.regs a) := by
  have hne : mpu6050Read ≠ mpu6050Write := by decide
  simp [registerFile, RegFile.took, hne]

/-- An idle bus with the register file on it. -/
structure Quiet (r : RegFile) (b : Bus (Wire RegFile)) : Prop where
  ready : Ready r b.slave
  idle : r.phase = .idle

variable {r : RegFile} {b : Bus (Wire RegFile)}

/-! ## Stored bytes -/

/-- The registers after the bytes `xs` have been stored from `p` on. -/
def storeAll (regs : BitVec 8 → BitVec 8) : BitVec 8 → List (BitVec 8) → BitVec 8 → BitVec 8
  | _, [] => regs
  | p, x :: xs => storeAll (Function.update regs p x) (p + 1) xs

/-- Up to 256 bytes do not overwrite each other: the register `i` places behind the first holds
byte `i`. -/
theorem storeAll_apply (regs : BitVec 8 → BitVec 8) (p : BitVec 8) (xs : List (BitVec 8))
    (hlen : xs.length ≤ 256) (a : BitVec 8) :
    storeAll regs p xs a = (xs[(a - p).toNat]?).getD (regs a) := by
  induction xs generalizing regs p with
  | nil => rfl
  | cons x xs ih =>
    rw [List.length_cons] at hlen
    rw [storeAll, ih _ _ (by omega), Function.update_apply]
    by_cases ha : a = p
    · have hlast : (p - (p + 1)).toNat = 255 := by bv_omega
      subst ha
      rw [if_pos rfl, hlast, List.getElem?_eq_none (by omega)]
      simp
    · have hpos : (a - p).toNat ≠ 0 := by bv_omega
      have hnext : (a - (p + 1)).toNat = (a - p).toNat - 1 := by bv_omega
      rw [if_neg ha, hnext]
      obtain ⟨i, hi⟩ := Nat.exists_eq_succ_of_ne_zero hpos
      rw [hi]
      rfl

/-! ## The transfers -/

/-- The register file takes a byte of the master, from `r` to `s`. -/
theorem iicSendByte_regs {r s : RegFile} {d : BitVec 8} (h : Between r b.slave)
    (hphase : r.phase = .device ∧ (d = mpu6050Write ∨ d = mpu6050Read) ∨ r.phase = .pointer ∨
      r.phase = .store)
    (hs : r.took d true = s) :
    (iicSendByte (onWire registerFile) d b).1 = true ∧
      Between s (iicSendByte (onWire registerFile) d b).2.slave := by
  have hout : registerFile.out r = none := by
    obtain ⟨hp, -⟩ | hp | hp := hphase <;> simp [registerFile, hp]
  have hack : registerFile.acks r d = true := by
    obtain ⟨hp, hd⟩ | hp | hp := hphase <;> simp [registerFile, *]
  rw [← hs]
  exact iicSendByte_wire h hout hack

/-- The register file stores a byte. -/
theorem iicSendByte_store {regs : BitVec 8 → BitVec 8} {p : BitVec 8}
    (h : Between ⟨regs, p, .store⟩ b.slave) (d : BitVec 8) :
    (iicSendByte (onWire registerFile) d b).1 = true ∧
      Between ⟨Function.update regs p d, p + 1, .store⟩
        (iicSendByte (onWire registerFile) d b).2.slave :=
  iicSendByte_regs h (.inr (.inr rfl)) rfl

/-- **The opening of both transfers**: the read address is stored at `Addr`. -/
theorem mpu6050Open_regs (addr : Nat) (h : Quiet r b) :
    (mpu6050Open (onWire registerFile) addr b).1 = true ∧
      Between ⟨Function.update r.regs (BitVec.ofNat 8 addr) mpu6050Read, BitVec.ofNat 8 addr + 1,
        .store⟩ (mpu6050Open (onWire registerFile) addr b).2.slave := by
  have hout : registerFile.out r = none := by simp [registerFile, h.idle]
  have hstart := iicStart_wire h.ready hout
  obtain ⟨-, hdevice⟩ := iicSendByte_regs (s := ⟨r.regs, r.ptr, .pointer⟩) hstart
    (.inl ⟨rfl, .inl rfl⟩) (by simp [registerFile, RegFile.took])
  obtain ⟨-, hptr⟩ := iicSendByte_regs (d := BitVec.ofNat 8 addr)
    (s := ⟨r.regs, BitVec.ofNat 8 addr, .store⟩) hdevice (.inr (.inl rfl)) rfl
  unfold mpu6050Open
  dsimp only
  exact iicSendByte_store hptr mpu6050Read

/-- The loop of `MPU6050_Tx_Data` stores its bytes one behind the other. -/
theorem mpu6050TxLoop_regs (data : Nat → BitVec 8) (n index : Nat) {regs : BitVec 8 → BitVec 8}
    {p : BitVec 8} (h : Between ⟨regs, p, .store⟩ b.slave) :
    (mpu6050TxLoop (onWire registerFile) data n index true b).1 = true ∧
      ∃ p', Between ⟨storeAll regs p ((List.range' index n).map data), p', .store⟩
        (mpu6050TxLoop (onWire registerFile) data n index true b).2.slave := by
  induction n generalizing index regs p b with
  | zero => exact ⟨rfl, p, h⟩
  | succ n ih =>
    obtain ⟨hres, hbyte⟩ := iicSendByte_store h (data index)
    rw [mpu6050TxLoop, if_pos rfl]
    dsimp only
    rw [hres]
    exact ih (index + 1) hbyte

/-- **`MPU6050_Tx_Data` as the register file sees it**: it stores the read address at `Addr`, and
behind it the data. -/
theorem mpu6050TxData_regs (data : Nat → BitVec 8) (addr txLen : Nat) (h : Quiet r b) :
    (mpu6050TxData (onWire registerFile) data addr txLen b).1 = true ∧
      (mpu6050TxData (onWire registerFile) data addr txLen b).2.slave.dev.regs =
        storeAll r.regs (BitVec.ofNat 8 addr)
          (mpu6050Read :: (List.range' 0 txLen).map data) := by
  obtain ⟨hres, hopen⟩ := mpu6050Open_regs addr h
  obtain ⟨htx, p, hloop⟩ := mpu6050TxLoop_regs data txLen 0 hopen
  have hstop := iicStop_wire (D := registerFile) hloop rfl
  unfold mpu6050TxData
  simp only [hres]
  refine ⟨htx, ?_⟩
  rw [if_neg (by decide), hstop.dev]
  rfl

/-- Nobody sends while the register file waits for a byte to store: the master reads ones, and the
register file stores them. -/
theorem iicReadByte_store {regs : BitVec 8 → BitVec 8} {p : BitVec 8}
    (h : Between ⟨regs, p, .store⟩ b.slave) (isAck : Bool) :
    (iicReadByte (onWire registerFile) isAck b).1 = 0xFF#8 ∧
      Between ⟨Function.update regs p 0xFF#8, p + 1, .store⟩
        (iicReadByte (onWire registerFile) isAck b).2.slave :=
  iicReadByte_wire (D := registerFile) h isAck

/-- The loop of `MPU6050_Rx_Data` reads nothing but ones, and overwrites the registers. -/
theorem mpu6050RxLoop_regs (n index : Nat) (buff : Nat → BitVec 8) {regs : BitVec 8 → BitVec 8}
    {p : BitVec 8} (h : Between ⟨regs, p, .store⟩ b.slave) :
    (∀ i, (mpu6050RxLoop (onWire registerFile) n index buff b).1 i =
        if index ≤ i ∧ i < index + n then 0xFF#8 else buff i) ∧
      ∃ p', Between ⟨storeAll regs p (List.replicate n 0xFF#8), p', .store⟩
        (mpu6050RxLoop (onWire registerFile) n index buff b).2.slave := by
  induction n generalizing index buff regs p b with
  | zero =>
    refine ⟨fun i => ?_, p, h⟩
    rw [if_neg (by omega)]
    rfl
  | succ n ih =>
    obtain ⟨hdata, hbyte⟩ := iicReadByte_store h (index != 1)
    obtain ⟨hbuff, hloop⟩ := ih (index + 1) (Function.update buff index 0xFF#8) hbyte
    rw [mpu6050RxLoop, hdata]
    refine ⟨fun i => ?_, hloop⟩
    rw [hbuff, Function.update_apply]
    grind

/-- **`MPU6050_Rx_Data` as the register file sees it**: a write of the read address and of
ones. -/
theorem mpu6050RxData_regs (addr rxLen : Nat) (buff : Nat → BitVec 8) (h : Quiet r b) :
    (mpu6050RxData (onWire registerFile) addr rxLen buff b).1 = true ∧
      (∀ i, (mpu6050RxData (onWire registerFile) addr rxLen buff b).2.1 i =
        if i < rxLen then 0xFF#8 else buff i) ∧
      (mpu6050RxData (onWire registerFile) addr rxLen buff b).2.2.slave.dev.regs =
        storeAll r.regs (BitVec.ofNat 8 addr) (mpu6050Read :: List.replicate rxLen 0xFF#8) := by
  obtain ⟨hres, hopen⟩ := mpu6050Open_regs addr h
  obtain ⟨hbuff, p, hloop⟩ := mpu6050RxLoop_regs rxLen 0 buff hopen
  have hstop := iicStop_wire (D := registerFile) hloop rfl
  unfold mpu6050RxData
  simp only [hres]
  refine ⟨rfl, fun i => ?_, ?_⟩
  · rw [if_neg (by decide), hbuff i]
    simp
  · rw [if_neg (by decide), hstop.dev]
    rfl

/-! ## Writes -/

/-- What `MPU6050_Tx_Data` should do: a write that returns True leaves `Data` in the registers from
`Addr` on, and nothing else changed. -/
def WriteLaw (data : Nat → BitVec 8) (addr txLen : Nat) (b : Bus (Wire RegFile)) : Prop :=
  (mpu6050TxData (onWire registerFile) data addr txLen b).1 = true →
    ∀ a : BitVec 8, (mpu6050TxData (onWire registerFile) data addr txLen b).2.slave.dev.regs a =
      if addr ≤ a.toNat ∧ a.toNat < addr + txLen then data (a.toNat - addr)
      else b.slave.dev.regs a

/-- The registers of a write, counted from its first one. -/
theorem window_offset {addr len : Nat} (hfit : addr + len ≤ 256) (hlen : len < 256)
    (a : BitVec 8) :
    (addr ≤ a.toNat ∧ a.toNat < addr + len ↔ (a - BitVec.ofNat 8 addr).toNat < len) ∧
      ((a - BitVec.ofNat 8 addr).toNat < len →
        a.toNat - addr = (a - BitVec.ofNat 8 addr).toNat) := by
  have hlt := a.isLt
  rw [BitVec.toNat_sub, BitVec.toNat_ofNat]
  omega

theorem offset_ofNat {addr i : Nat} (hi : i < 256) :
    (BitVec.ofNat 8 (addr + i) - BitVec.ofNat 8 addr).toNat = i := by
  rw [BitVec.toNat_sub, BitVec.toNat_ofNat, BitVec.toNat_ofNat]
  omega

theorem eq_ofNat_of_offset (addr : Nat) (a : BitVec 8) {i : Nat}
    (h : (a - BitVec.ofNat 8 addr).toNat = i) : a = BitVec.ofNat 8 (addr + i) := by
  have hlt := a.isLt
  rw [BitVec.toNat_sub, BitVec.toNat_ofNat] at h
  apply BitVec.eq_of_toNat_eq
  rw [BitVec.toNat_ofNat]
  omega

/-- The law by offsets: the register at offset `i` should hold `Data[i]`, and it holds byte `i` of
what was stored, which is one behind. -/
theorem writeLaw_iff_offsets {data : Nat → BitVec 8} {addr txLen : Nat} (h : Quiet r b)
    (hlen : txLen < 256) (hfit : addr + txLen ≤ 256) :
    WriteLaw data addr txLen b ↔
      ∀ i, i < 256 →
        ((mpu6050Read :: (List.range' 0 txLen).map data)[i]?).getD
            (r.regs (BitVec.ofNat 8 (addr + i))) =
          if i < txLen then data i else r.regs (BitVec.ofNat 8 (addr + i)) := by
  obtain ⟨hres, hregs⟩ := mpu6050TxData_regs data addr txLen h
  unfold WriteLaw
  rw [hres, hregs, h.ready.dev]
  simp only [true_implies]
  constructor
  · intro hlaw i hi
    have hi' := hlaw (BitVec.ofNat 8 (addr + i))
    obtain ⟨hin, hoff⟩ := window_offset hfit hlen (BitVec.ofNat 8 (addr + i))
    rw [storeAll_apply _ _ _ (by simp; omega)] at hi'
    rw [offset_ofNat hi] at hin hoff hi'
    rw [hi']
    simp only [hin]
    split
    · rename_i hlt
      rw [hoff hlt]
    · rfl
  · intro hlaw a
    have ha := eq_ofNat_of_offset addr a rfl
    obtain ⟨hin, hoff⟩ := window_offset hfit hlen a
    have hoffset := hlaw (a - BitVec.ofNat 8 addr).toNat (BitVec.isLt _)
    rw [← ha] at hoffset
    rw [storeAll_apply _ _ _ (by simp; omega), hoffset]
    simp only [hin]
    split
    · rename_i hlt
      rw [hoff hlt]
    · rfl

/-- **When a write does what it should**: all its bytes are the read address, and so is the register
behind the last one already. -/
theorem mpu6050_write_iff (data : Nat → BitVec 8) (addr txLen : Nat) (r : RegFile)
    (b : Bus (Wire RegFile)) (h : Quiet r b) (hlen : txLen < 256) (hfit : addr + txLen ≤ 256) :
    WriteLaw data addr txLen b ↔
      (∀ i, i < txLen → data i = mpu6050Read) ∧
        r.regs (BitVec.ofNat 8 (addr + txLen)) = mpu6050Read := by
  rw [writeLaw_iff_offsets h hlen hfit]
  have hbyte : ∀ i, i < txLen → ((List.range' 0 txLen).map data)[i]? = some (data i) := by
    intro i hi
    simp [hi]
  constructor
  · intro hlaw
    -- each byte is the one before it, and the first is the read address
    have hdata : ∀ i, i < txLen → data i = mpu6050Read := by
      intro i
      induction i with
      | zero =>
        intro hi
        have hfirst := hlaw 0 (by omega)
        rw [if_pos hi] at hfirst
        exact hfirst.symm
      | succ i ih =>
        intro hi
        have hnext := hlaw (i + 1) (by omega)
        rw [if_pos hi, List.getElem?_cons_succ, hbyte i (by omega)] at hnext
        exact hnext.symm.trans (ih (by omega))
    refine ⟨hdata, ?_⟩
    have hlast := hlaw txLen hlen
    rw [if_neg (Nat.lt_irrefl _)] at hlast
    cases txLen with
    | zero => exact hlast.symm
    | succ n =>
      rw [List.getElem?_cons_succ, hbyte n (by omega)] at hlast
      exact hlast.symm.trans (hdata n (by omega))
  · rintro ⟨hdata, hlast⟩ i hi
    have hstored : i ≤ txLen →
        (mpu6050Read :: (List.range' 0 txLen).map data)[i]? = some mpu6050Read := by
      intro hle
      cases i with
      | zero => rfl
      | succ i => rw [List.getElem?_cons_succ, hbyte i (by omega), hdata i (by omega)]
    rcases Nat.lt_trichotomy i txLen with hlt | rfl | hgt
    · rw [if_pos hlt, hstored (by omega), hdata i hlt]
      rfl
    · rw [if_neg (Nat.lt_irrefl _), hstored (by omega), hlast]
      rfl
    · rw [if_neg (by omega), List.getElem?_eq_none (by simp; omega)]
      rfl

/-- A bus at rest with the register file `r` on it. -/
def quietBus (r : RegFile) : Bus (Wire RegFile) where
  slave :=
    { dev := r, shift := 0, low := false, count := 0, mode := true, latch := true, scl := true }
  trace := []

theorem quiet_quietBus (h : r.phase = .idle) : Quiet r (quietBus r) where
  ready := ⟨rfl, rfl, rfl, rfl⟩
  idle := h

/-- A write of the read address over itself. -/
theorem mpu6050_write_readAddress :
    WriteLaw (fun _ => mpu6050Read) 0x1A 1 (quietBus ⟨fun _ => mpu6050Read, 0, .idle⟩) :=
  (mpu6050_write_iff (fun _ => mpu6050Read) 0x1A 1 _ _ (quiet_quietBus rfl) (by omega)
    (by omega)).mpr ⟨fun _ _ => rfl, rfl⟩

/-- `MPU6050_SetLPF(188)` writes 1 to `MPU6050_CFG_REG`: the call returns True, the register gets
the read address and the next one the 1. -/
theorem mpu6050_write_shifted :
    Quiet ⟨fun _ => 0, 0, .idle⟩ (quietBus ⟨fun _ => 0, 0, .idle⟩) ∧
      (mpu6050TxData (onWire registerFile) (fun _ => 1) 0x1A 1
        (quietBus ⟨fun _ => 0, 0, .idle⟩)).1 = true ∧
      (mpu6050TxData (onWire registerFile) (fun _ => 1) 0x1A 1
        (quietBus ⟨fun _ => 0, 0, .idle⟩)).2.slave.dev.regs 0x1A = 0xD1 ∧
      (mpu6050TxData (onWire registerFile) (fun _ => 1) 0x1A 1
        (quietBus ⟨fun _ => 0, 0, .idle⟩)).2.slave.dev.regs 0x1B = 1 ∧
      ¬ WriteLaw (fun _ => 1) 0x1A 1 (quietBus ⟨fun _ => 0, 0, .idle⟩) := by
  have hquiet : Quiet ⟨fun _ => 0, 0, .idle⟩ (quietBus ⟨fun _ => 0, 0, .idle⟩) :=
    quiet_quietBus rfl
  obtain ⟨hres, hregs⟩ := mpu6050TxData_regs (fun _ => 1) 0x1A 1 hquiet
  refine ⟨hquiet, hres, ?_, ?_, ?_⟩
  · rw [hregs]
    rfl
  · rw [hregs]
    rfl
  · rw [writeLaw_iff_offsets hquiet (by omega) (by omega)]
    intro hlaw
    exact absurd (hlaw 0 (by omega)) (by decide)

/-! ## Acknowledges of the master -/

section MasterAcks

variable {σ : Type} {S : Slave σ}

/-- The mode of the SDA pin and the acknowledges of the master so far: what it puts on SDA in a
reply, with the pin an output. -/
def ackStep (s : Bool × List Bool) : Src × PinOp → Bool × List Bool
  | (_, .mode tx) => (tx, s.2)
  | (.reply, .sda level) => if s.1 then (s.1, s.2 ++ [!level]) else s
  | _ => s

/-- The acknowledges of the master in a trace, `true` for ACK. -/
def masterAcks (trace : List (Src × PinOp)) : List Bool := (trace.foldl ackStep (false, [])).2

/-- The writes do not acknowledge anything. -/
theorem masterAcks_puts {src : Src} {ops : List PinOp}
    (h : ∀ s, ((ops.map fun op => (src, op)).foldl ackStep s).2 = s.2) (b : Bus σ) :
    masterAcks (b.puts S src ops).trace = masterAcks b.trace := by
  unfold masterAcks Bus.puts
  rw [List.foldl_append, h]

theorem foldl_ackStep_bitOps (n : Nat) (data : BitVec 8) (s : Bool × List Bool) :
    ((bitOps n data).map fun op => (Src.byte, op)).foldl ackStep s = s := by
  induction n generalizing data with
  | zero => rfl
  | succ n ih =>
    rw [bitOps, List.map_append, List.foldl_append]
    exact ih (data <<< 1)

theorem masterAcks_rxReply (b : Bus σ) :
    masterAcks (iicRxReply S b).2.trace = masterAcks b.trace := by
  have hlisten : masterAcks (rxReplyLoop S 251
      (b.puts S .reply [.mode false, .sda true, .scl true])).2.trace = masterAcks b.trace := by
    rw [rxReplyLoop_trace]
    exact masterAcks_puts (fun _ => rfl) b
  unfold iicRxReply
  dsimp only
  split
  · exact (masterAcks_puts (fun _ => rfl) _).trans hlisten
  · exact (masterAcks_puts (fun _ => rfl) _).trans hlisten

theorem masterAcks_sendByte (data : BitVec 8) (b : Bus σ) :
    masterAcks (iicSendByte S data b).2.trace = masterAcks b.trace := by
  unfold iicSendByte
  rw [sendBits_eq, masterAcks_rxReply,
    masterAcks_puts (fun s => by rw [foldl_ackStep_bitOps]), masterAcks_puts (fun _ => rfl)]

/-- `IIC_Read_Byte` acknowledges its byte as it is told. -/
theorem masterAcks_readByte (isAck : Bool) (b : Bus σ) :
    masterAcks (iicReadByte S isAck b).2.trace = masterAcks b.trace ++ [isAck] := by
  have hclocks : ∀ n s, ((List.replicate n
      [(Src.byte, PinOp.scl false), (.byte, .scl true)]).flatten.foldl ackStep s) = s := by
    intro n s
    induction n with
    | zero => rfl
    | succ n ih =>
      rw [List.replicate_succ, List.flatten_cons, List.foldl_append]
      exact ih
  unfold iicReadByte iicTxReply masterAcks Bus.puts
  dsimp only
  rw [List.foldl_append, readBits_trace, List.foldl_append, hclocks, List.foldl_append]
  cases isAck <;> rfl

theorem masterAcks_open (addr : Nat) (b : Bus σ) :
    masterAcks (mpu6050Open S addr b).2.trace = masterAcks b.trace := by
  unfold mpu6050Open
  dsimp only
  rw [masterAcks_sendByte, masterAcks_sendByte, masterAcks_sendByte]
  exact masterAcks_puts (fun _ => rfl) b

theorem masterAcks_rxLoop (n index : Nat) (buff : Nat → BitVec 8) (b : Bus σ) :
    masterAcks (mpu6050RxLoop S n index buff b).2.trace =
      masterAcks b.trace ++ (List.range' index n).map (· != 1) := by
  induction n generalizing index buff b with
  | zero => exact (List.append_nil _).symm
  | succ n ih =>
    rw [mpu6050RxLoop, ih, masterAcks_readByte, List.append_assoc]
    rfl

/-- `MPU6050_Rx_Data` acknowledges every byte but the second. -/
theorem masterAcks_rxData {addr : Nat} {b : Bus σ} (h : (mpu6050Open S addr b).1 = true)
    (rxLen : Nat) (buff : Nat → BitVec 8) :
    masterAcks (mpu6050RxData S addr rxLen buff b).2.2.trace =
      masterAcks b.trace ++ (List.range' 0 rxLen).map (· != 1) := by
  unfold mpu6050RxData
  simp only [h]
  rw [if_neg (by decide), iicStop, masterAcks_puts (fun _ => rfl), masterAcks_rxLoop,
    masterAcks_open]

end MasterAcks

/-- The second byte is the last one in reads of two bytes only. -/
theorem map_ne_one_eq_iff {n : Nat} (hpos : 1 ≤ n) :
    (List.range' 0 n).map (· != 1) = List.replicate (n - 1) true ++ [false] ↔ n = 2 := by
  obtain ⟨m, rfl⟩ : ∃ m, n = m + 1 := ⟨n - 1, by omega⟩
  constructor
  · intro h
    rw [List.range'_concat, List.map_append] at h
    obtain ⟨-, hlast⟩ := List.append_inj' h rfl
    simp at hlast
    omega
  · intro h
    obtain rfl : m = 1 := by omega
    rfl

/-! ## Reads -/

/-- What `MPU6050_Rx_Data` should do. -/
structure ReadLaw (addr rxLen : Nat) (buff : Nat → BitVec 8) (b : Bus (Wire RegFile)) : Prop where
  ret : (mpu6050RxData (onWire registerFile) addr rxLen buff b).1 = true
  acks : masterAcks (mpu6050RxData (onWire registerFile) addr rxLen buff b).2.2.trace =
    masterAcks b.trace ++ (List.replicate (rxLen - 1) true ++ [false])
  data : ∀ i, i < rxLen → (mpu6050RxData (onWire registerFile) addr rxLen buff b).2.1 i =
    b.slave.dev.regs (BitVec.ofNat 8 (addr + i))
  regs : (mpu6050RxData (onWire registerFile) addr rxLen buff b).2.2.slave.dev.regs =
    b.slave.dev.regs

/-- What a getter should do: it returns True and the six registers from `reg` on. -/
def AxesLaw (reg : Nat) (get : Slave (Wire RegFile) → Axes → Bus (Wire RegFile) →
    Bool × Axes × Bus (Wire RegFile)) (axes : Axes) (b : Bus (Wire RegFile)) : Prop :=
  let regs i := b.slave.dev.regs (BitVec.ofNat 8 (reg + i))
  (get (onWire registerFile) axes b).1 = true ∧
    (get (onWire registerFile) axes b).2.1 =
      { x := mpu6050Short (regs 0) (regs 1)
        y := mpu6050Short (regs 2) (regs 3)
        z := mpu6050Short (regs 4) (regs 5) }

theorem mpu6050Short_ones (hi lo : BitVec 8) :
    mpu6050Short 0xFF#8 0xFF#8 = mpu6050Short hi lo ↔ hi = 0xFF#8 ∧ lo = 0xFF#8 := by
  constructor
  · intro h
    have hhi : (mpu6050Short hi lo).extractLsb' 8 8 = hi := by
      ext i hi8
      have hlt : 8 + i < 16 ∧ i < 16 := by omega
      simp [mpu6050Short, hlt, BitVec.getLsbD_eq_getElem hi8]
    have hlo : (mpu6050Short hi lo).setWidth 8 = lo := by
      ext i hi8
      simp [mpu6050Short]
    rw [← h] at hhi hlo
    exact ⟨hhi.symm, hlo.symm⟩
  · rintro ⟨rfl, rfl⟩
    rfl

/-- A getter reads ones only, so it is right iff that is what the registers hold. -/
theorem axesLaw_iff (reg : Nat) (axes : Axes) (h : Quiet r b) :
    AxesLaw reg (mpu6050GetAxes reg) axes b ↔
      ∀ i, i < 6 → r.regs (BitVec.ofNat 8 (reg + i)) = 0xFF#8 := by
  obtain ⟨hres, hbuff, -⟩ := mpu6050RxData_regs reg 6 (fun _ => 0) h
  unfold AxesLaw mpu6050GetAxes
  have hones : ∀ i, i < 6 →
      (mpu6050RxData (onWire registerFile) reg 6 (fun _ => 0) b).2.1 i = 0xFF#8 :=
    fun i hi => (hbuff i).trans (if_pos hi)
  simp only [hres, if_true, hones 0, hones 1, hones 2, hones 3, hones 4, hones 5, h.ready.dev,
    Nat.reduceLT, true_and, Axes.mk.injEq, mpu6050Short_ones]
  constructor
  · rintro ⟨⟨h0, h1⟩, ⟨h2, h3⟩, h4, h5⟩ i hi
    obtain rfl | rfl | rfl | rfl | rfl | rfl : i = 0 ∨ i = 1 ∨ i = 2 ∨ i = 3 ∨ i = 4 ∨ i = 5 := by
      omega
    all_goals assumption
  · intro hregs
    exact ⟨⟨hregs 0 (by omega), hregs 1 (by omega)⟩, ⟨hregs 2 (by omega), hregs 3 (by omega)⟩,
      hregs 4 (by omega), hregs 5 (by omega)⟩

/-- The first register cannot hold the ones the master reads and the read address that is stored
there. -/
theorem not_readLaw {addr rxLen : Nat} {buff : Nat → BitVec 8} (h : Quiet r b) (hpos : 1 ≤ rxLen)
    (hlen : rxLen < 256) : ¬ ReadLaw addr rxLen buff b := by
  intro hlaw
  obtain ⟨-, hbuff, hregs⟩ := mpu6050RxData_regs addr rxLen buff h
  have hdata := hlaw.data 0 hpos
  rw [hbuff, if_pos (by omega), h.ready.dev, Nat.add_zero] at hdata
  have hfirst := congrFun (hlaw.regs.symm.trans hregs) (BitVec.ofNat 8 addr)
  rw [storeAll_apply _ _ _ (by simp; omega), h.ready.dev, BitVec.sub_self, ← hdata] at hfirst
  have hne : (0xFF#8 : BitVec 8) ≠ mpu6050Read := by decide
  exact hne hfirst

/-- **No read does what it should.** The acknowledges are right in reads of two bytes only, and a
getter returns its registers iff they hold nothing but ones. -/
theorem mpu6050_read_never (addr rxLen : Nat) (buff : Nat → BitVec 8) (axes : Axes) (r : RegFile)
    (b : Bus (Wire RegFile)) (h : Quiet r b) (hpos : 1 ≤ rxLen)
    (hlen : rxLen < 256) :
    ¬ ReadLaw addr rxLen buff b ∧
      (masterAcks (mpu6050RxData (onWire registerFile) addr rxLen buff b).2.2.trace =
        masterAcks b.trace ++ (List.replicate (rxLen - 1) true ++ [false]) ↔ rxLen = 2) ∧
      (AxesLaw 0x43 mpu6050GetGyroscope axes b ↔
        ∀ i, i < 6 → r.regs (BitVec.ofNat 8 (0x43 + i)) = 0xFF#8) ∧
      (AxesLaw 0x3B mpu6050GetAccelerometer axes b ↔
        ∀ i, i < 6 → r.regs (BitVec.ofNat 8 (0x3B + i)) = 0xFF#8) := by
  obtain ⟨hopen, -⟩ := mpu6050Open_regs addr h
  refine ⟨not_readLaw h hpos hlen, ?_, axesLaw_iff 0x43 axes h, axesLaw_iff 0x3B axes h⟩
  rw [masterAcks_rxData hopen, List.append_cancel_left_eq]
  exact map_ne_one_eq_iff hpos

/-- A read of `WHO_AM_I`. -/
theorem mpu6050_read_never_whoAmI :
    ¬ ReadLaw 0x75 1 (fun _ => 0) (quietBus ⟨fun _ => 0x68, 0, .idle⟩) :=
  (mpu6050_read_never 0x75 1 (fun _ => 0) ⟨0, 0, 0⟩ _ _ (quiet_quietBus rfl) (by omega)
    (by omega)).1

/-- `MPU6050_GetGyroscope` with the gyroscope at rest: it returns True and ones, and the registers
it has read are overwritten. -/
theorem mpu6050_read_overwrites :
    Quiet ⟨fun _ => 0, 0, .idle⟩ (quietBus ⟨fun _ => 0, 0, .idle⟩) ∧
      (mpu6050GetGyroscope (onWire registerFile) ⟨0, 0, 0⟩
        (quietBus ⟨fun _ => 0, 0, .idle⟩)).1 = true ∧
      (mpu6050GetGyroscope (onWire registerFile) ⟨0, 0, 0⟩
        (quietBus ⟨fun _ => 0, 0, .idle⟩)).2.1 = ⟨0xFFFF, 0xFFFF, 0xFFFF⟩ ∧
      (mpu6050RxData (onWire registerFile) 0x43 6 (fun _ => 0)
        (quietBus ⟨fun _ => 0, 0, .idle⟩)).2.2.slave.dev.regs 0x43 = 0xD1 ∧
      ¬ ReadLaw 0x43 6 (fun _ => 0) (quietBus ⟨fun _ => 0, 0, .idle⟩) := by
  have hquiet : Quiet ⟨fun _ => 0, 0, .idle⟩ (quietBus ⟨fun _ => 0, 0, .idle⟩) :=
    quiet_quietBus rfl
  obtain ⟨hres, hbuff, hregs⟩ := mpu6050RxData_regs 0x43 6 (fun _ => 0) hquiet
  refine ⟨hquiet, ?_, ?_, ?_, not_readLaw hquiet (by omega) (by omega)⟩
  · unfold mpu6050GetGyroscope mpu6050GetAxes
    simp only [hres, if_true]
  · unfold mpu6050GetGyroscope mpu6050GetAxes
    simp only [hres, if_true, hbuff]
    rfl
  · rw [hregs]
    rfl

end Stm32F407.I2c
