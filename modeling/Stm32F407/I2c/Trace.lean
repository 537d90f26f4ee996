import Stm32F407.I2c.Bus
import Stm32F407.Lib.Runs

/-!
# Well-formed bus traces

`pinStep` replays the master's writes: the mode and the latch of SDA, SCL, and whether a START has
been seen since the last STOP. `PinLaw` is what each write must respect: the master moves SDA while
SCL is high only for the START of `IIC_Start` and the STOP of `IIC_Stop`, and clocks bytes and
replies only between a START and the next STOP.

Between two primitives the bus is in one of two phases: idle, or held by the master with SCL low.
`IIC_Start` and `IIC_Stop` work from both and lead to the one and the other; a byte needs the bus
held, and one that is not acknowledged leaves it idle, since `IIC_RxReply` has made a STOP. A byte
clocked on an idle bus breaks the law (`not_traceOk_sendByte`, `not_traceOk_readByte`), and the
drivers do clock the next byte without looking at the reply.

* `call_wellFormed_iff`: for each of the four transfers and every pattern of answers, the trace is
  well formed, and the bus idle at the end, iff the slave acknowledges the bytes after which the
  driver goes on clocking.
-/

namespace Stm32F407.I2c

open Stm32F407.Lib

/-! ## The pins -/

/-- The pins, and whether the bus is between a START and the next STOP. -/
structure Pins where
  tx : Bool
  sdaOut : Bool
  scl : Bool
  busy : Bool
deriving DecidableEq, Repr

/-- What the master does to the SDA line: in input mode it lets go of it. -/
def Pins.drive (p : Pins) : Bool := !p.tx || p.sdaOut

/-- A write to the pins. -/
def Pins.write (p : Pins) : PinOp → Pins
  | .mode tx => { p with tx := tx }
  | .sda level => { p with sdaOut := level }
  | .scl level => { p with scl := level }

/-- One write: a fall of SDA while SCL is high is a START, a rise is a STOP. -/
def pinStep (p : Pins) (e : Src × PinOp) : Pins :=
  let q := p.write e.2
  if p.scl && q.scl && (p.drive != q.drive) then { q with busy := p.drive } else q

/-- What a write must respect. -/
def PinLaw (p : Pins) (e : Src × PinOp) : Prop :=
  let q := p.write e.2
  (p.scl = true → q.scl = true → p.drive ≠ q.drive →
    e.1 = .start ∧ p.drive = true ∨ e.1 = .stop ∧ q.drive = true) ∧
  (e.1 = .byte ∨ e.1 = .reply → p.scl = false → q.scl = true → p.busy = true)

instance (p : Pins) (e : Src × PinOp) : Decidable (PinLaw p e) :=
  inferInstanceAs (Decidable (_ ∧ _))

/-- An idle bus: SCL and SDA high. -/
def Idle (p : Pins) : Prop := p.scl = true ∧ p.sdaOut = true ∧ p.busy = false

/-- The bus held by the master, SCL low after a START. -/
def Held (p : Pins) : Prop := p.scl = false ∧ p.busy = true

/-- The master listens: SDA let go, between a START and the next STOP. -/
def Listening (p : Pins) : Prop := p.tx = false ∧ p.sdaOut = true ∧ p.scl = true ∧ p.busy = true

/-- The master reads bits: SDA let go, whatever the latch and SCL. -/
def Reading (p : Pins) : Prop := p.tx = false ∧ p.busy = true

instance (p : Pins) : Decidable (Idle p) := inferInstanceAs (Decidable (_ ∧ _))

instance (p : Pins) : Decidable (Held p) := inferInstanceAs (Decidable (_ ∧ _))

instance (p : Pins) : Decidable (Listening p) := inferInstanceAs (Decidable (_ ∧ _))

instance (p : Pins) : Decidable (Reading p) := inferInstanceAs (Decidable (_ ∧ _))

/-! ## Traces -/

variable {σ : Type} {S : Slave σ} {p₀ : Pins} {b b' : Bus σ} {Q R : Pins → Prop}

/-- The trace is well formed so far, from the pins `p₀` on. -/
def TraceOk (p₀ : Pins) (b : Bus σ) : Prop := AllSteps pinStep PinLaw p₀ b.trace

/-- The trace is well formed so far, and the pins are now as `Q` says. -/
def At (p₀ : Pins) (Q : Pins → Prop) (b : Bus σ) : Prop :=
  TraceOk p₀ b ∧ Q (run pinStep p₀ b.trace)

/-- The writes `ops` of `src` are lawful from `Q` and lead to `R`. -/
def Leads (Q : Pins → Prop) (src : Src) (ops : List PinOp) (R : Pins → Prop) : Prop :=
  ∀ p, Q p → AllSteps pinStep PinLaw p (ops.map fun op => (src, op)) ∧
    R (run pinStep p (ops.map fun op => (src, op)))

/-- Before the first write. -/
theorem at_nil (h : Q p₀) (s : σ) : At p₀ Q ⟨s, []⟩ := ⟨trivial, h⟩

theorem At.puts {src : Src} {ops : List PinOp} (h : At p₀ Q b) (hops : Leads Q src ops R) :
    At p₀ R (b.puts S src ops) := by
  obtain ⟨hok, hend⟩ := hops _ h.2
  unfold At TraceOk Bus.puts
  rw [allSteps_append, run_append]
  exact ⟨⟨h.1, hok⟩, hend⟩

/-- The trace only grows, so what was malformed stays so. -/
theorem TraceOk.of_grown (h : TraceOk p₀ b') (hg : b.trace <+: b'.trace) : TraceOk p₀ b := by
  obtain ⟨more, hmore⟩ := hg
  unfold TraceOk at h
  rw [← hmore, allSteps_append] at h
  exact h.1

theorem puts_grows (src : Src) (ops : List PinOp) (b : Bus σ) :
    b.trace <+: (b.puts S src ops).trace := List.prefix_append _ _

theorem Leads.append {src : Src} {ops ops' : List PinOp} {T : Pins → Prop} (h : Leads Q src ops R)
    (h' : Leads R src ops' T) : Leads Q src (ops ++ ops') T := by
  intro p hp
  obtain ⟨hok, hR⟩ := h p hp
  obtain ⟨hok', hT⟩ := h' _ hR
  rw [List.map_append, allSteps_append, run_append]
  exact ⟨⟨hok, hok'⟩, hT⟩

/-! ## What the primitives write -/

/-- `IIC_Start` works on an idle bus and on one that is held. -/
theorem leads_start : Leads (fun p => Idle p ∨ Held p) .start
    [.mode true, .sda true, .scl true, .sda false, .scl false] Held := by
  rintro ⟨tx, sda, scl, busy⟩ (⟨rfl, rfl, rfl⟩ | ⟨rfl, rfl⟩)
  · cases tx <;> decide
  · cases tx <;> cases sda <;> decide

/-- `IIC_Stop` works from every phase. -/
theorem leads_stop : Leads (fun p => Idle p ∨ Held p ∨ Listening p) .stop
    [.mode true, .scl false, .sda false, .scl true, .sda true] Idle := by
  rintro ⟨tx, sda, scl, busy⟩ (⟨rfl, rfl, rfl⟩ | ⟨rfl, rfl⟩ | ⟨rfl, rfl, rfl, rfl⟩)
  · cases tx <;> decide
  · cases tx <;> cases sda <;> decide
  · decide

/-- The writes of the loop of `IIC_Send_Byte`, for `n` bits. -/
def bitOps : Nat → BitVec 8 → List PinOp
  | 0, _ => []
  | n + 1, data => [.sda data.msb, .scl true, .scl false] ++ bitOps n (data <<< 1)

/-- The bits of a byte, on a held bus. -/
theorem leads_bitOps (n : Nat) (data : BitVec 8) : Leads Held .byte (bitOps n data) Held := by
  induction n generalizing data with
  | zero => exact fun p hp => ⟨trivial, hp⟩
  | succ n ih =>
    refine Leads.append ?_ (ih (data <<< 1))
    generalize data.msb = level
    rintro ⟨tx, sda, scl, busy⟩ ⟨rfl, rfl⟩
    cases tx <;> cases sda <;> cases level <;> decide

theorem leads_mode_tx : Leads Held .byte [.mode true] Held := by
  rintro ⟨tx, sda, scl, busy⟩ ⟨rfl, rfl⟩
  cases tx <;> cases sda <;> decide

/-- The master lets go of SDA and raises SCL, to hear the reply. -/
theorem leads_listen : Leads Held .reply [.mode false, .sda true, .scl true] Listening := by
  rintro ⟨tx, sda, scl, busy⟩ ⟨rfl, rfl⟩
  cases tx <;> cases sda <;> decide

theorem leads_acked : Leads Listening .reply [.scl false] Held := by
  rintro ⟨tx, sda, scl, busy⟩ ⟨rfl, rfl, rfl, rfl⟩
  decide

theorem leads_mode_rx : Leads Held .byte [.mode false] Reading := by
  rintro ⟨tx, sda, scl, busy⟩ ⟨rfl, rfl⟩
  cases tx <;> cases sda <;> decide

theorem leads_readBit : Leads Reading .byte [.scl false, .scl true] Reading := by
  rintro ⟨tx, sda, scl, busy⟩ ⟨rfl, rfl⟩
  cases sda <;> cases scl <;> decide

/-- The master's own reply. -/
theorem leads_txReply (res : Bool) :
    Leads Reading .reply [.scl false, .mode true, .sda (!res), .scl true, .scl false] Held := by
  rintro ⟨tx, sda, scl, busy⟩ ⟨rfl, rfl⟩
  cases sda <;> cases scl <;> cases res <;> decide

/-- **A byte sent on an idle bus** breaks the law: its first bit moves SDA while SCL is high, or its
second is clocked without a START. -/
theorem not_lawful_bitOps {p : Pins} (hp : Idle p) (data : BitVec 8) :
    ¬ AllSteps pinStep PinLaw p ((.mode true :: bitOps 8 data).map fun op => (Src.byte, op)) := by
  have hsplit : ∃ (l m : Bool) (rest : List PinOp), .mode true :: bitOps 8 data =
      [.mode true, .sda l, .scl true, .scl false, .sda m, .scl true] ++ rest := ⟨_, _, _, rfl⟩
  obtain ⟨l, m, rest, heq⟩ := hsplit
  rw [heq, List.map_append, allSteps_append]
  rintro ⟨hok, -⟩
  obtain ⟨tx, sda, scl, busy⟩ := p
  obtain ⟨rfl, rfl, rfl⟩ := hp
  revert hok
  cases tx <;> cases l <;> cases m <;> decide

/-- A byte read on an idle bus breaks the law: its first bit is clocked without a START. -/
theorem not_lawful_readBit {p : Pins} (hp : Idle p) :
    ¬ AllSteps pinStep PinLaw p
      ([PinOp.mode false, .scl false, .scl true].map fun op => (Src.byte, op)) := by
  obtain ⟨tx, sda, scl, busy⟩ := p
  obtain ⟨rfl, rfl, rfl⟩ := hp
  cases tx <;> decide

/-! ## The primitives on the bus -/

theorem at_start (h : At p₀ (fun p => Idle p ∨ Held p) b) : At p₀ Held (iicStart S b) :=
  h.puts leads_start

theorem at_stop (h : At p₀ (fun p => Idle p ∨ Held p ∨ Listening p) b) :
    At p₀ Idle (iicStop S b) :=
  h.puts leads_stop

/-- The loop of `IIC_Send_Byte` writes `bitOps`. -/
theorem sendBits_eq (n : Nat) (data : BitVec 8) (b : Bus σ) :
    sendBits S n data b = b.puts S .byte (bitOps n data) := by
  induction n generalizing data b with
  | zero => simp [sendBits, bitOps, Bus.puts]
  | succ n ih =>
    rw [sendBits, ih]
    simp [bitOps, Bus.puts]

/-- A reply on a held bus leaves it held if it is an acknowledge, and idle if not. -/
theorem at_rxReply (h : At p₀ Held b) :
    At p₀ (if (iicRxReply S b).1 then Held else Idle) (iicRxReply S b).2 := by
  have hlisten : At p₀ Listening (b.puts S .reply [.mode false, .sda true, .scl true]) :=
    h.puts leads_listen
  -- polling writes nothing
  have hloop : ∀ n (c : Bus σ), At p₀ Listening c → At p₀ Listening (rxReplyLoop S n c).2 := by
    intro n
    induction n with
    | zero => exact fun c hc => hc
    | succ n ih =>
      intro c hc
      rw [rxReplyLoop]
      split
      · exact ih _ hc
      · exact hc
  have hpolled := hloop 251 _ hlisten
  unfold iicRxReply
  dsimp only
  split
  · exact hpolled.puts leads_acked
  · refine at_stop ⟨hpolled.1, Or.inr (Or.inr hpolled.2)⟩

/-- **`IIC_Send_Byte` on a held bus** leaves it held if acknowledged, and idle if not. -/
theorem at_sendByte (h : At p₀ Held b) (data : BitVec 8) :
    At p₀ (if (iicSendByte S data b).1 then Held else Idle) (iicSendByte S data b).2 := by
  unfold iicSendByte
  rw [sendBits_eq]
  exact at_rxReply ((h.puts leads_mode_tx).puts (leads_bitOps 8 data))

/-- **`IIC_Read_Byte` on a held bus** leaves it held. -/
theorem at_readByte (h : At p₀ Held b) (isAck : Bool) : At p₀ Held (iicReadByte S isAck b).2 := by
  have hloop : ∀ n rxData (c : Bus σ), At p₀ Reading c →
      At p₀ Reading (readBits S n rxData c).2 := by
    intro n
    induction n with
    | zero => exact fun _ c hc => hc
    | succ n ih =>
      intro rxData c hc
      have hbit : At p₀ Reading (c.puts S .byte [.scl false, .scl true]) := hc.puts leads_readBit
      exact ih _ _ hbit
  exact (hloop 8 0 _ (h.puts leads_mode_rx)).puts (leads_txReply isAck)

/-! ## The trace grows -/

theorem rxReplyLoop_trace (n : Nat) (b : Bus σ) : (rxReplyLoop S n b).2.trace = b.trace := by
  induction n generalizing b with
  | zero => rfl
  | succ n ih =>
    rw [rxReplyLoop]
    split
    · exact ih _
    · rfl

theorem rxReply_grows (b : Bus σ) : b.trace <+: (iicRxReply S b).2.trace := by
  have hlisten := puts_grows (S := S) .reply [.mode false, .sda true, .scl true] b
  unfold iicRxReply
  dsimp only
  split
  · refine hlisten.trans ?_
    rw [← rxReplyLoop_trace (S := S) 251]
    exact puts_grows _ _ _
  · refine hlisten.trans ?_
    rw [← rxReplyLoop_trace (S := S) 251]
    exact puts_grows _ _ _

theorem sendByte_grows (data : BitVec 8) (b : Bus σ) :
    b.trace <+: (iicSendByte S data b).2.trace := by
  unfold iicSendByte
  rw [sendBits_eq]
  exact (puts_grows _ _ b).trans ((puts_grows _ _ _).trans (rxReply_grows _))

/-- The loop of `IIC_Read_Byte` writes a clock pulse for each bit. -/
theorem readBits_trace (n : Nat) (rxData : BitVec 8) (b : Bus σ) :
    (readBits S n rxData b).2.trace = b.trace ++
      (List.replicate n [(Src.byte, PinOp.scl false), (.byte, .scl true)]).flatten := by
  induction n generalizing rxData b with
  | zero => simp [readBits]
  | succ n ih =>
    rw [readBits, ih, List.replicate_succ, List.flatten_cons, ← List.append_assoc]
    rfl

theorem readByte_grows (isAck : Bool) (b : Bus σ) :
    b.trace <+: (iicReadByte S isAck b).2.trace := by
  refine (puts_grows (S := S) .byte [.mode false] b).trans
    (List.IsPrefix.trans ?_ (puts_grows _ _ _))
  rw [readBits_trace]
  exact List.prefix_append _ _

/-- **A byte sent on an idle bus** spoils the trace. -/
theorem not_traceOk_sendByte (h : At p₀ Idle b) (data : BitVec 8) :
    ¬ TraceOk p₀ (iicSendByte S data b).2 := by
  intro hok
  have hbits : TraceOk p₀ (b.puts S .byte (.mode true :: bitOps 8 data)) := by
    refine hok.of_grown ?_
    unfold iicSendByte
    rw [sendBits_eq]
    refine List.IsPrefix.trans ?_ (rxReply_grows _)
    simp [Bus.puts]
  unfold TraceOk Bus.puts at hbits
  rw [allSteps_append] at hbits
  exact not_lawful_bitOps h.2 data hbits.2

/-- **A byte read on an idle bus** spoils the trace. -/
theorem not_traceOk_readByte (h : At p₀ Idle b) (isAck : Bool) :
    ¬ TraceOk p₀ (iicReadByte S isAck b).2 := by
  intro hok
  have hbit : TraceOk p₀ (b.puts S .byte [.mode false, .scl false, .scl true]) := by
    refine hok.of_grown (List.IsPrefix.trans ?_ (puts_grows _ _ _))
    rw [readBits_trace, List.replicate_succ]
    simp [Bus.puts]
  unfold TraceOk Bus.puts at hbit
  rw [allSteps_append] at hbit
  exact not_lawful_readBit h.2 hbit.2

end Stm32F407.I2c
