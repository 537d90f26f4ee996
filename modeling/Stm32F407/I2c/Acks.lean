import Stm32F407.I2c.Trace

/-!
# The transfers under every pattern of answers

The slave of this file answers by a table: `A n j` is what it puts on SDA the `n`-th time the master
listens, at the `j`-th read. Every pattern of acknowledges and of data bits is such a table, and
whether the `n`-th answer is an acknowledge (`acks`) can be read off it.

* `at24c02TxLoop_spec`, `at24c02RxLoop_spec`, `mpu6050Open_spec`: after which bytes each driver goes
  on clocking without looking at the reply.
* `call_wellFormed_iff`: for each transfer, every pattern of answers and any arguments, the trace is
  well formed and the bus idle at the end iff those bytes are acknowledged.
-/

namespace Stm32F407.I2c

open Stm32F407.Lib

/-- What the slave puts on SDA the `n`-th time the master listens, at the `j`-th read. -/
abbrev Answers := Nat → Nat → Bool

/-- The slave that answers by a table; its state is how often the master has begun to listen. -/
def answering (A : Answers) : Slave Nat where
  pin n op := if op = .mode false then n + 1 else n
  sample n j := (A (n - 1) j, n)

/-- The `n`-th answer is an acknowledge: SDA is low at one of the 251 reads of `IIC_RxReply`. -/
def acks (A : Answers) (n : Nat) : Bool := (List.range 251).any fun j => !A n j

-- the lemmas about whole traces are used by name only; unfolded, a trace is run through bit by bit
attribute [local irreducible] TraceOk

variable {A : Answers} {p₀ : Pins} {b : Bus Nat}

/-! ## How the primitives advance the slave -/

theorem puts_slave (src : Src) (ops : List PinOp) (b : Bus Nat) :
    (b.puts (answering A) src ops).slave = b.slave + ops.count (.mode false) := by
  simp only [Bus.puts]
  induction ops generalizing b with
  | nil => rfl
  | cons op ops ih =>
    rw [List.foldl_cons, ih { b with slave := (answering A).pin b.slave op }]
    by_cases hop : op = .mode false
    · simp [answering, hop]
      omega
    · simp [answering, hop]

theorem rxReplyLoop_answering (n : Nat) (hn : n ≤ 251) (b : Bus Nat) :
    rxReplyLoop (answering A) n b =
      ((List.range' (251 - n) n).any fun j => !A (b.slave - 1) j, b) := by
  induction n with
  | zero => rfl
  | succ n ih =>
    have hstart : 251 - (n + 1) = 250 - n := by omega
    have hnext : 250 - n + 1 = 251 - n := by omega
    have hsample : b.sample (answering A) (250 - n) = (A (b.slave - 1) (250 - n), b) := rfl
    rw [rxReplyLoop, hsample, ih (by omega), List.range'_succ, hstart, hnext, List.any_cons]
    cases A (b.slave - 1) (250 - n) <;> simp

/-- A reply is the next answer of the table. -/
theorem rxReply_answering (b : Bus Nat) :
    (iicRxReply (answering A) b).1 = acks A b.slave ∧
      (iicRxReply (answering A) b).2.slave = b.slave + 1 := by
  have hlisten : (b.puts (answering A) .reply [.mode false, .sda true, .scl true]).slave =
      b.slave + 1 := puts_slave _ _ b
  unfold iicRxReply
  rw [rxReplyLoop_answering 251 (Nat.le_refl _), hlisten]
  have hacks : ((List.range' (251 - 251) 251).any fun j => !A (b.slave + 1 - 1) j) =
      acks A b.slave := by
    rw [acks, List.range_eq_range']
    rfl
  dsimp only
  rw [hacks]
  split
  · rename_i hack
    exact ⟨hack.symm, by rw [puts_slave, hlisten]; rfl⟩
  · rename_i hnack
    exact ⟨(Bool.not_eq_true _ ▸ hnack).symm, by rw [iicStop, puts_slave, hlisten]; rfl⟩

theorem count_bitOps (n : Nat) (data : BitVec 8) : (bitOps n data).count (.mode false) = 0 := by
  induction n generalizing data with
  | zero => rfl
  | succ n ih =>
    rw [bitOps, List.count_append, ih]
    simp

/-- `IIC_Send_Byte` hears the next answer. -/
theorem sendByte_answering (data : BitVec 8) (b : Bus Nat) :
    (iicSendByte (answering A) data b).1 = acks A b.slave ∧
      (iicSendByte (answering A) data b).2.slave = b.slave + 1 := by
  have hbits : ((b.puts (answering A) .byte [.mode true]).puts (answering A) .byte
      (bitOps 8 data)).slave = b.slave := by
    rw [puts_slave, puts_slave, count_bitOps]
    rfl
  unfold iicSendByte
  rw [sendBits_eq]
  obtain ⟨hret, hslave⟩ := rxReply_answering (A := A)
    ((b.puts (answering A) .byte [.mode true]).puts (answering A) .byte (bitOps 8 data))
  rw [hbits] at hret hslave
  exact ⟨hret, hslave⟩

/-- `IIC_Read_Byte` hears the next answer. -/
theorem readByte_answering (isAck : Bool) (b : Bus Nat) :
    (iicReadByte (answering A) isAck b).2.slave = b.slave + 1 := by
  have hloop : ∀ n rxData (c : Bus Nat), (readBits (answering A) n rxData c).2.slave = c.slave := by
    intro n
    induction n with
    | zero => exact fun _ _ => rfl
    | succ n ih =>
      intro rxData c
      rw [readBits, ih]
      exact puts_slave (A := A) .byte [.scl false, .scl true] c
  unfold iicReadByte iicTxReply
  dsimp only
  rw [puts_slave, hloop, puts_slave]
  cases isAck <;> rfl

/-! ## Bytes in a row -/

theorem at_sendByte_acked (h : At p₀ Held b) (hack : acks A b.slave = true) (data : BitVec 8) :
    At p₀ Held (iicSendByte (answering A) data b).2 := by
  have := at_sendByte (S := answering A) h data
  rwa [(sendByte_answering data b).1, hack] at this

theorem at_sendByte_nacked (h : At p₀ Held b) (hnack : acks A b.slave = false) (data : BitVec 8) :
    At p₀ Idle (iicSendByte (answering A) data b).2 := by
  have := at_sendByte (S := answering A) h data
  rwa [(sendByte_answering data b).1, hnack] at this

/-- Whatever the reply, the bus is idle or held after a byte. -/
theorem at_sendByte_any (h : At p₀ Held b) (data : BitVec 8) :
    At p₀ (fun p => Idle p ∨ Held p) (iicSendByte (answering A) data b).2 := by
  cases hack : acks A b.slave with
  | true =>
    obtain ⟨hok, hheld⟩ := at_sendByte_acked h hack data
    exact ⟨hok, Or.inr hheld⟩
  | false =>
    obtain ⟨hok, hidle⟩ := at_sendByte_nacked h hack data
    exact ⟨hok, Or.inl hidle⟩

/-- **Two bytes in a row** leave a well-formed trace only if the first was acknowledged. -/
theorem acked_of_sendByte (h : At p₀ Held b) {d d' : BitVec 8}
    (hok : TraceOk p₀ (iicSendByte (answering A) d' (iicSendByte (answering A) d b).2).2) :
    acks A b.slave = true := by
  by_contra hnack
  exact not_traceOk_sendByte (at_sendByte_nacked h (by simpa using hnack) d) d' hok

/-- A byte read after one that was sent, likewise. -/
theorem acked_of_readByte (h : At p₀ Held b) {d : BitVec 8} {isAck : Bool}
    (hok : TraceOk p₀ (iicReadByte (answering A) isAck (iicSendByte (answering A) d b).2).2) :
    acks A b.slave = true := by
  by_contra hnack
  exact not_traceOk_readByte (at_sendByte_nacked h (by simpa using hnack) d) isAck hok

theorem start_slave (b : Bus Nat) : (iicStart (answering A) b).slave = b.slave :=
  puts_slave (A := A) .start _ b

theorem stop_slave (b : Bus Nat) : (iicStop (answering A) b).slave = b.slave :=
  puts_slave (A := A) .stop _ b

/-- START and two bytes, as all four transfers begin: the trace is well formed after a third byte
iff both are acknowledged, and the bus is then held before it. -/
theorem start_two_bytes (h : At p₀ Idle b) (d d' : BitVec 8) :
    let b' := (iicSendByte (answering A) d' (iicSendByte (answering A) d
      (iicStart (answering A) b)).2).2
    b'.slave = b.slave + 2 ∧
      (TraceOk p₀ b' → acks A b.slave = true) ∧
      (acks A b.slave = true → At p₀ (fun p => Idle p ∨ Held p) b') ∧
      (acks A b.slave = true → acks A (b.slave + 1) = true → At p₀ Held b') ∧
      (∀ d'', TraceOk p₀ (iicSendByte (answering A) d'' b').2 → acks A (b.slave + 1) = true) := by
  have hstart : At p₀ Held (iicStart (answering A) b) := at_start ⟨h.1, Or.inl h.2⟩
  have hslave := start_slave (A := A) b
  have hslave' := (sendByte_answering (A := A) d (iicStart (answering A) b)).2
  rw [hslave] at hslave'
  have hack : ∀ {c : Bus Nat}, (iicSendByte (answering A) d' (iicSendByte (answering A) d
      (iicStart (answering A) b)).2).2.trace <+: c.trace → TraceOk p₀ c →
        acks A b.slave = true := by
    intro c hc hok
    rw [← hslave]
    exact acked_of_sendByte hstart (hok.of_grown hc)
  have hheld : acks A b.slave = true →
      At p₀ Held (iicSendByte (answering A) d (iicStart (answering A) b)).2 := fun ha =>
    at_sendByte_acked hstart (by rw [hslave]; exact ha) d
  refine ⟨?_, hack List.prefix_rfl, fun ha => at_sendByte_any (hheld ha) d', fun ha ha' => ?_,
    fun d'' hok => ?_⟩
  · rw [(sendByte_answering d' _).2, hslave']
  · exact at_sendByte_acked (hheld ha) (by rw [hslave']; exact ha') d'
  · rw [← hslave']
    exact acked_of_sendByte (hheld (hack (sendByte_grows _ _) hok)) hok

/-! ## AT24C02 -/

/-- **One byte written to the AT24C02**: well formed iff the device and the word address are
acknowledged, and the bus is then idle. The data byte's reply is the result. -/
theorem at24c02TxBody_spec (h : At p₀ Idle b) (data : Nat → BitVec 8) (addr index : Nat) :
    let r := at24c02TxBody (answering A) data addr index b
    r.1 = acks A (b.slave + 2) ∧ r.2.slave = b.slave + 3 ∧
      (TraceOk p₀ r.2 → acks A b.slave = true ∧ acks A (b.slave + 1) = true) ∧
      (acks A b.slave = true → acks A (b.slave + 1) = true → At p₀ Idle r.2) := by
  obtain ⟨hslave, hfirst, -, hheld, hsecond⟩ :=
    start_two_bytes (A := A) h (at24c02Device addr index) (at24c02Word addr index)
  generalize hb : (iicSendByte (answering A) (at24c02Word addr index) (iicSendByte (answering A)
    (at24c02Device addr index) (iicStart (answering A) b)).2).2 = b' at hslave hfirst hheld hsecond
  obtain ⟨hret, hslave'⟩ := sendByte_answering (A := A) (data index) b'
  rw [hslave] at hret hslave'
  unfold at24c02TxBody
  dsimp only
  rw [hb]
  refine ⟨hret, ?_, fun hok => ?_, fun ha ha' => ?_⟩
  · rw [stop_slave, hslave']
  · have hthird := hok.of_grown (puts_grows (S := answering A) _ _ _)
    exact ⟨hfirst (hthird.of_grown (sendByte_grows _ _)), hsecond _ hthird⟩
  · obtain ⟨hok, hphase⟩ := at_sendByte_any (A := A) (hheld ha ha') (data index)
    exact at_stop ⟨hok, hphase.imp id Or.inl⟩

theorem at24c02TxBody_grows (data : Nat → BitVec 8) (addr index : Nat) (b : Bus Nat) :
    b.trace <+: (at24c02TxBody (answering A) data addr index b).2.trace := by
  unfold at24c02TxBody
  exact (puts_grows _ _ b).trans ((sendByte_grows _ _).trans ((sendByte_grows _ _).trans
    ((sendByte_grows _ _).trans (puts_grows _ _ _))))

theorem at24c02TxLoop_grows (data : Nat → BitVec 8) (addr n index : Nat) (res : Bool)
    (b : Bus Nat) :
    b.trace <+: (at24c02TxLoop (answering A) data addr n index res b).2.trace := by
  induction n generalizing index res b with
  | zero => exact List.prefix_rfl
  | succ n ih =>
    rw [at24c02TxLoop]
    split
    · exact (at24c02TxBody_grows data addr index b).trans (ih _ _ _)
    · exact List.prefix_rfl

/-- The answers from the `k`-th on acknowledge the device and the word address of each of `n` bytes
that are written: a byte that is not acknowledged itself is the last one. -/
def TxAcked (A : Answers) : Nat → Nat → Prop
  | 0, _ => True
  | n + 1, k =>
    acks A k = true ∧ acks A (k + 1) = true ∧ (acks A (k + 2) = true → TxAcked A n (k + 3))

/-- **The loop of `AT24C02_Tx_Data`.** -/
theorem at24c02TxLoop_spec (data : Nat → BitVec 8) (addr n index : Nat) (h : At p₀ Idle b) :
    (TraceOk p₀ (at24c02TxLoop (answering A) data addr n index true b).2 → TxAcked A n b.slave) ∧
      (TxAcked A n b.slave →
        At p₀ Idle (at24c02TxLoop (answering A) data addr n index true b).2) := by
  induction n generalizing index b with
  | zero => exact ⟨fun _ => trivial, fun _ => h⟩
  | succ n ih =>
    obtain ⟨hret, hslave, hacked, hidle⟩ := at24c02TxBody_spec (A := A) h data addr index
    rw [at24c02TxLoop, if_pos rfl]
    dsimp only
    rw [hret]
    constructor
    · intro hok
      obtain ⟨ha, ha'⟩ := hacked (hok.of_grown (at24c02TxLoop_grows data addr n _ _ _))
      refine ⟨ha, ha', fun ha'' => ?_⟩
      rw [ha''] at hok
      rw [← hslave]
      exact (ih (index + 1) (hidle ha ha')).1 hok
    · rintro ⟨ha, ha', hrest⟩
      cases ha'' : acks A (b.slave + 2) with
      | true =>
        refine (ih (index + 1) (hidle ha ha')).2 ?_
        rw [hslave]
        exact hrest ha''
      | false =>
        cases n with
        | zero => exact hidle ha ha'
        | succ n => exact hidle ha ha'

/-- **One byte read from the AT24C02**: well formed iff the device address and the read command are
acknowledged, and the bus is then idle. The word address may go unacknowledged: a START follows. -/
theorem at24c02RxBody_spec (h : At p₀ Idle b) (addr index : Nat) :
    let r := at24c02RxBody (answering A) addr index b
    r.1 = acks A (b.slave + 2) ∧ r.2.2.slave = b.slave + 4 ∧
      (TraceOk p₀ r.2.2 → acks A b.slave = true ∧ acks A (b.slave + 2) = true) ∧
      (acks A b.slave = true → acks A (b.slave + 2) = true → At p₀ Idle r.2.2) := by
  obtain ⟨hslave, hfirst, hany, -, -⟩ :=
    start_two_bytes (A := A) h (at24c02Device addr index) (at24c02Word addr index)
  generalize hb : (iicSendByte (answering A) (at24c02Word addr index) (iicSendByte (answering A)
    (at24c02Device addr index) (iicStart (answering A) b)).2).2 = b' at hslave hfirst hany
  have hstart := start_slave (A := A) b'
  obtain ⟨hret, hslave'⟩ := sendByte_answering (A := A) 0xA1 (iicStart (answering A) b')
  rw [hstart, hslave] at hret hslave'
  unfold at24c02RxBody
  dsimp only
  rw [hb]
  refine ⟨hret, ?_, fun hok => ?_, fun ha ha' => ?_⟩
  · rw [stop_slave, readByte_answering, hslave']
  · have hread := hok.of_grown (puts_grows (S := answering A) _ _ _)
    have hsent := hread.of_grown (readByte_grows _ _)
    have ha := hfirst ((hsent.of_grown (sendByte_grows _ _)).of_grown (puts_grows _ _ _))
    have hheld : At p₀ Held (iicStart (answering A) b') := at_start (hany ha)
    refine ⟨ha, ?_⟩
    rw [← hslave, ← hstart]
    exact acked_of_readByte hheld hread
  · have hheld : At p₀ Held (iicStart (answering A) b') := at_start (hany ha)
    have hsent := at_sendByte_acked (A := A) hheld (by rw [hstart, hslave]; exact ha') 0xA1
    obtain ⟨hok, hphase⟩ := at_readByte (S := answering A) hsent false
    exact at_stop ⟨hok, Or.inr (Or.inl hphase)⟩

theorem at24c02RxBody_grows (addr index : Nat) (b : Bus Nat) :
    b.trace <+: (at24c02RxBody (answering A) addr index b).2.2.trace := by
  unfold at24c02RxBody
  exact (puts_grows _ _ b).trans ((sendByte_grows _ _).trans ((sendByte_grows _ _).trans
    ((puts_grows _ _ _).trans ((sendByte_grows _ _).trans ((readByte_grows _ _).trans
      (puts_grows _ _ _))))))

theorem at24c02RxLoop_grows (addr n index : Nat) (res : Bool) (buff : Nat → BitVec 8)
    (b : Bus Nat) :
    b.trace <+: (at24c02RxLoop (answering A) addr n index res buff b).2.2.trace := by
  induction n generalizing index res buff b with
  | zero => exact List.prefix_rfl
  | succ n ih =>
    rw [at24c02RxLoop]
    split
    · exact (at24c02RxBody_grows addr index b).trans (ih _ _ _ _)
    · exact List.prefix_rfl

/-- The answers from the `k`-th on acknowledge the device address and the read command of each of
`n` bytes that are read; the answer after them is the byte. -/
def RxAcked (A : Answers) (n k : Nat) : Prop :=
  ∀ i, i < n → acks A (k + 4 * i) = true ∧ acks A (k + 4 * i + 2) = true

theorem rxAcked_succ (A : Answers) (n k : Nat) :
    RxAcked A (n + 1) k ↔
      (acks A k = true ∧ acks A (k + 2) = true) ∧ RxAcked A n (k + 4) := by
  constructor
  · intro h
    refine ⟨h 0 (Nat.succ_pos n), fun i hi => ?_⟩
    have := h (i + 1) (Nat.succ_lt_succ hi)
    rwa [show k + 4 * (i + 1) = k + 4 + 4 * i by omega] at this
  · rintro ⟨hfirst, hrest⟩ i hi
    cases i with
    | zero => exact hfirst
    | succ i =>
      have := hrest i (Nat.lt_of_succ_lt_succ hi)
      rwa [show k + 4 + 4 * i = k + 4 * (i + 1) by omega] at this

/-- **The loop of `AT24C02_Rx_Data`.** -/
theorem at24c02RxLoop_spec (addr n index : Nat) (buff : Nat → BitVec 8) (h : At p₀ Idle b) :
    (TraceOk p₀ (at24c02RxLoop (answering A) addr n index true buff b).2.2 →
        RxAcked A n b.slave) ∧
      (RxAcked A n b.slave →
        At p₀ Idle (at24c02RxLoop (answering A) addr n index true buff b).2.2) := by
  induction n generalizing index buff b with
  | zero => exact ⟨fun _ i hi => absurd hi (Nat.not_lt_zero i), fun _ => h⟩
  | succ n ih =>
    obtain ⟨hret, hslave, hacked, hidle⟩ := at24c02RxBody_spec (A := A) h addr index
    rw [at24c02RxLoop, if_pos rfl, rxAcked_succ]
    dsimp only
    constructor
    · intro hok
      obtain ⟨ha, ha'⟩ := hacked (hok.of_grown (at24c02RxLoop_grows addr n _ _ _ _))
      refine ⟨⟨ha, ha'⟩, ?_⟩
      rw [hret, ha'] at hok
      rw [← hslave]
      exact (ih (index + 1) _ (hidle ha ha')).1 hok
    · rintro ⟨⟨ha, ha'⟩, hrest⟩
      rw [hret, ha']
      refine (ih (index + 1) _ (hidle ha ha')).2 ?_
      rw [hslave]
      exact hrest

/-! ## MPU6050 -/

/-- **The opening of the MPU6050 transfers**: well formed iff the write address and the register are
acknowledged; the reply to the read address says whether the bus is then held. -/
theorem mpu6050Open_spec (h : At p₀ Idle b) (addr : Nat) :
    let r := mpu6050Open (answering A) addr b
    (TraceOk p₀ r.2 → acks A b.slave = true ∧ acks A (b.slave + 1) = true) ∧
      (acks A b.slave = true → acks A (b.slave + 1) = true →
        At p₀ (if r.1 then Held else Idle) r.2) := by
  obtain ⟨-, hfirst, -, hheld, hsecond⟩ :=
    start_two_bytes (A := A) h mpu6050Write (BitVec.ofNat 8 addr)
  unfold mpu6050Open
  dsimp only
  constructor
  · intro hok
    exact ⟨hfirst (hok.of_grown (sendByte_grows _ _)), hsecond _ hok⟩
  · intro ha ha'
    exact at_sendByte (hheld ha ha') mpu6050Read

/-- The loop of `MPU6050_Tx_Data` stops at the first byte that is not acknowledged. -/
theorem at_mpu6050TxLoop (data : Nat → BitVec 8) (n index : Nat) {res : Bool}
    (h : At p₀ (if res then Held else Idle) b) :
    At p₀ (fun p => Idle p ∨ Held p) (mpu6050TxLoop (answering A) data n index res b).2 := by
  induction n generalizing index res b with
  | zero =>
    cases res with
    | true => exact ⟨h.1, Or.inr h.2⟩
    | false => exact ⟨h.1, Or.inl h.2⟩
  | succ n ih =>
    rw [mpu6050TxLoop]
    cases res with
    | true => exact ih (index + 1) (at_sendByte h (data index))
    | false => exact ⟨h.1, Or.inl h.2⟩

/-- The loop of `MPU6050_Rx_Data` keeps the bus held. -/
theorem at_mpu6050RxLoop (n index : Nat) (buff : Nat → BitVec 8) (h : At p₀ Held b) :
    At p₀ Held (mpu6050RxLoop (answering A) n index buff b).2 := by
  induction n generalizing index buff b with
  | zero => exact h
  | succ n ih => exact ih (index + 1) _ (at_readByte h (index != 1))

theorem mpu6050TxLoop_grows (data : Nat → BitVec 8) (n index : Nat) (res : Bool) (b : Bus Nat) :
    b.trace <+: (mpu6050TxLoop (answering A) data n index res b).2.trace := by
  induction n generalizing index res b with
  | zero => exact List.prefix_rfl
  | succ n ih =>
    rw [mpu6050TxLoop]
    split
    · exact (sendByte_grows _ _).trans (ih _ _ _)
    · exact List.prefix_rfl

theorem mpu6050RxLoop_grows (n index : Nat) (buff : Nat → BitVec 8) (b : Bus Nat) :
    b.trace <+: (mpu6050RxLoop (answering A) n index buff b).2.trace := by
  induction n generalizing index buff b with
  | zero => exact List.prefix_rfl
  | succ n ih => exact (readByte_grows _ _).trans (ih _ _ _)

/-- An opening whose last byte is not acknowledged is followed by a STOP. -/
theorem mpu6050Refused_spec (h : At p₀ Idle b) (addr : Nat)
    (hres : (mpu6050Open (answering A) addr b).1 = false) :
    (TraceOk p₀ (iicStop (answering A) (mpu6050Open (answering A) addr b).2) →
        acks A b.slave = true ∧ acks A (b.slave + 1) = true) ∧
      (acks A b.slave = true → acks A (b.slave + 1) = true →
        At p₀ Idle (iicStop (answering A) (mpu6050Open (answering A) addr b).2)) := by
  obtain ⟨hacked, hopen⟩ := mpu6050Open_spec (A := A) h addr
  rw [hres] at hopen
  constructor
  · exact fun hok => hacked (hok.of_grown (puts_grows _ _ _))
  · intro ha ha'
    obtain ⟨hok, hidle⟩ := hopen ha ha'
    exact at_stop ⟨hok, Or.inl hidle⟩

/-- **`MPU6050_Tx_Data`.** -/
theorem mpu6050TxData_spec (h : At p₀ Idle b) (data : Nat → BitVec 8) (addr txLen : Nat) :
    (TraceOk p₀ (mpu6050TxData (answering A) data addr txLen b).2 →
        acks A b.slave = true ∧ acks A (b.slave + 1) = true) ∧
      (acks A b.slave = true → acks A (b.slave + 1) = true →
        At p₀ Idle (mpu6050TxData (answering A) data addr txLen b).2) := by
  obtain ⟨hacked, hopen⟩ := mpu6050Open_spec (A := A) h addr
  unfold mpu6050TxData
  dsimp only
  cases hres : (mpu6050Open (answering A) addr b).1 with
  | true =>
    rw [hres] at hopen
    constructor
    · intro hok
      have hloop := hok.of_grown (puts_grows _ _ _)
      exact hacked (hloop.of_grown (mpu6050TxLoop_grows data txLen 0 _ _))
    · intro ha ha'
      obtain ⟨hok, hphase⟩ := at_mpu6050TxLoop (A := A) data txLen 0 (hopen ha ha')
      exact at_stop ⟨hok, hphase.imp id Or.inl⟩
  | false => exact mpu6050Refused_spec h addr hres

/-- **`MPU6050_Rx_Data`.** -/
theorem mpu6050RxData_spec (h : At p₀ Idle b) (addr rxLen : Nat) (buff : Nat → BitVec 8) :
    (TraceOk p₀ (mpu6050RxData (answering A) addr rxLen buff b).2.2 →
        acks A b.slave = true ∧ acks A (b.slave + 1) = true) ∧
      (acks A b.slave = true → acks A (b.slave + 1) = true →
        At p₀ Idle (mpu6050RxData (answering A) addr rxLen buff b).2.2) := by
  obtain ⟨hacked, hopen⟩ := mpu6050Open_spec (A := A) h addr
  unfold mpu6050RxData
  dsimp only
  cases hres : (mpu6050Open (answering A) addr b).1 with
  | true =>
    rw [hres] at hopen
    constructor
    · intro hok
      exact hacked ((hok.of_grown (puts_grows _ _ _)).of_grown (mpu6050RxLoop_grows rxLen 0 buff _))
    · intro ha ha'
      obtain ⟨hok, hheld⟩ := at_mpu6050RxLoop (A := A) rxLen 0 buff (hopen ha ha')
      exact at_stop ⟨hok, Or.inr (Or.inl hheld)⟩
  | false => exact mpu6050Refused_spec h addr hres

/-! ## The four transfers -/

/-- A call of one of the drivers' transfers. -/
inductive Call where
  | at24c02Tx (data : Nat → BitVec 8) (addr txLen : Nat)
  | at24c02Rx (addr rxLen : Nat) (buff : Nat → BitVec 8)
  | mpu6050Tx (data : Nat → BitVec 8) (addr txLen : Nat)
  | mpu6050Rx (addr rxLen : Nat) (buff : Nat → BitVec 8)

/-- The bus after the call. -/
def Call.run (S : Slave Nat) (b : Bus Nat) : Call → Bus Nat
  | .at24c02Tx data addr txLen => (at24c02TxData S data addr txLen b).2
  | .at24c02Rx addr rxLen buff => (at24c02RxData S addr rxLen buff b).2.2
  | .mpu6050Tx data addr txLen => (mpu6050TxData S data addr txLen b).2
  | .mpu6050Rx addr rxLen buff => (mpu6050RxData S addr rxLen buff b).2.2

/-- The trace of the call, on a bus whose pins are `p₀`, is well formed and leaves the bus idle. -/
def WellFormed (p₀ : Pins) (A : Answers) (c : Call) : Prop :=
  At p₀ Idle (c.run (answering A) ⟨0, []⟩)

/-- The slave acknowledges the bytes after which the driver goes on clocking. -/
def AckOk (A : Answers) : Call → Prop
  | .at24c02Tx _ _ txLen => TxAcked A txLen 0
  | .at24c02Rx _ rxLen _ => rxLen ≤ iicDataSizeMax → RxAcked A rxLen 0
  | .mpu6050Tx _ _ _ => acks A 0 = true ∧ acks A 1 = true
  | .mpu6050Rx _ _ _ => acks A 0 = true ∧ acks A 1 = true

theorem at24c02Tx_wellFormed_iff (hidle : Idle p₀) (data : Nat → BitVec 8) (addr txLen : Nat) :
    WellFormed p₀ A (.at24c02Tx data addr txLen) ↔ TxAcked A txLen 0 := by
  have h : At p₀ Idle (⟨0, []⟩ : Bus Nat) := at_nil hidle 0
  obtain ⟨hacked, hidle⟩ := at24c02TxLoop_spec (A := A) data addr txLen 0 h
  exact ⟨fun hw => hacked hw.1, hidle⟩

/-- **The bus traces.** From an idle bus, for every transfer with any arguments and every pattern of
answers, the trace is well formed and the bus idle at the end iff the slave acknowledges: the device
and the word address of every byte that `AT24C02_Tx_Data` writes; the device address and the read
command of every byte that `AT24C02_Rx_Data` reads; the write address and the register for the
MPU6050. -/
theorem call_wellFormed_iff (p₀ : Pins) (hidle : Idle p₀) (A : Answers) (c : Call) :
    WellFormed p₀ A c ↔ AckOk A c := by
  have h : At p₀ Idle (⟨0, []⟩ : Bus Nat) := at_nil hidle 0
  cases c with
  | at24c02Tx data addr txLen => exact at24c02Tx_wellFormed_iff hidle data addr txLen
  | at24c02Rx addr rxLen buff =>
    obtain ⟨hacked, hidle⟩ := at24c02RxLoop_spec (A := A) addr rxLen 0 buff h
    unfold WellFormed AckOk Call.run at24c02RxData
    by_cases hlen : rxLen > iicDataSizeMax
    · simp only [if_pos hlen]
      exact iff_of_true h fun hle => absurd hlen (Nat.not_lt.mpr hle)
    · simp only [if_neg hlen]
      exact ⟨fun hw _ => hacked hw.1, fun ha => hidle (ha (Nat.not_lt.mp hlen))⟩
  | mpu6050Tx data addr txLen =>
    obtain ⟨hacked, hidle⟩ := mpu6050TxData_spec (A := A) h data addr txLen
    exact ⟨fun hw => hacked hw.1, fun ha => hidle ha.1 ha.2⟩
  | mpu6050Rx addr rxLen buff =>
    obtain ⟨hacked, hidle⟩ := mpu6050RxData_spec (A := A) h addr rxLen buff
    exact ⟨fun hw => hacked hw.1, fun ha => hidle ha.1 ha.2⟩

/-- The pins as `IIC_Init` leaves them. -/
def pinsIdle : Pins := ⟨true, true, true, false⟩

/-- A slave that acknowledges at once: one byte to the AT24C02. -/
theorem call_wellFormed_acked :
    WellFormed pinsIdle (fun _ _ => false) (.at24c02Tx (fun _ => 0x5A) 0 1) :=
  (call_wellFormed_iff pinsIdle (by decide) _ _).mpr ⟨by decide, by decide, fun _ => trivial⟩

/-- A slave that never answers: after the STOP of the first reply `AT24C02_Tx_Data` clocks the word
address on the idle bus. -/
theorem call_nack_malformed :
    Idle pinsIdle ∧ ¬ WellFormed pinsIdle (fun _ _ => true) (.at24c02Tx (fun _ => 0x5A) 0 1) := by
  refine ⟨by decide, fun hw => ?_⟩
  obtain ⟨hacked, -⟩ := (at24c02Tx_wellFormed_iff (by decide) _ _ _).mp hw
  simp [acks] at hacked

end Stm32F407.I2c
