import Stm32F407.I2c.Acks

/-!
# Which missing acknowledges the drivers report

Every transfer keeps its result in one variable, and most replies are overwritten by the next one
before anybody looks at them.

* `listens`: the trace says how often the master has listened, and whether to the reply to a byte it
  had sent or to the bits of a byte it was reading. With the slave of `Acks.lean` the `n`-th time it
  hears the `n`-th answer, so `AllAcked` can be read off the trace.
* `Heard`: each primitive on that reading.
* `call_reports_iff`: a transfer returns `True` iff every byte it has sent was acknowledged, exactly
  when one of the replies it looks at is missing or all those it overwrites are there.
-/

namespace Stm32F407.I2c

/-! ## What was sent -/

/-- What the master listened to, each time it has let go of SDA. -/
def listens (trace : List (Src × PinOp)) : List Src :=
  (trace.filter fun e => e.2 == .mode false).map (·.1)

/-- Every byte that was sent has been acknowledged. -/
def AllAcked (A : Answers) (trace : List (Src × PinOp)) : Prop :=
  ∀ n, (listens trace)[n]? = some .reply → acks A n = true

/-- What the transfer returns. -/
def Call.result (S : Slave Nat) (b : Bus Nat) : Call → Bool
  | .at24c02Tx data addr txLen => (at24c02TxData S data addr txLen b).1
  | .at24c02Rx addr rxLen buff => (at24c02RxData S addr rxLen buff b).1
  | .mpu6050Tx data addr txLen => (mpu6050TxData S data addr txLen b).1
  | .mpu6050Rx addr rxLen buff => (mpu6050RxData S addr rxLen buff b).1

/-- **The law**: the transfer returns `True` iff every byte it has sent was acknowledged. -/
def Reports (A : Answers) (c : Call) : Prop :=
  c.result (answering A) ⟨0, []⟩ = true ↔ AllAcked A (c.run (answering A) ⟨0, []⟩).trace

/-! ## The primitives -/

/-- The bus `b` has heard as many answers as its trace says, and the bytes sent so far have been
acknowledged iff `P`. -/
structure Heard (A : Answers) (P : Prop) (b : Bus Nat) : Prop where
  count : b.slave = (listens b.trace).length
  acked : AllAcked A b.trace ↔ P

variable {A : Answers} {P : Prop} {b : Bus Nat}

theorem heard_nil (A : Answers) : Heard A True ⟨0, []⟩ :=
  ⟨rfl, iff_of_true (fun n h => by simp [listens] at h) trivial⟩

theorem listens_puts (src : Src) (ops : List PinOp) (b : Bus Nat) :
    listens (b.puts (answering A) src ops).trace =
      listens b.trace ++ List.replicate (ops.count (.mode false)) src := by
  simp only [Bus.puts, listens, List.filter_append, List.map_append, List.append_cancel_left_eq]
  induction ops with
  | nil => rfl
  | cons op ops ih =>
    by_cases hop : op = .mode false
    · simp [hop, List.replicate_succ, ih]
    · simp [hop, ih]

/-- Writes that do not let go of SDA. -/
theorem Heard.puts (h : Heard A P b) (src : Src) {ops : List PinOp}
    (hops : ops.count (.mode false) = 0) : Heard A P (b.puts (answering A) src ops) := by
  have hl := listens_puts (A := A) src ops b
  rw [hops, List.replicate_zero, List.append_nil] at hl
  refine ⟨?_, ?_⟩
  · rw [puts_slave, hops, Nat.add_zero, h.count, hl]
  · rw [← h.acked]
    unfold AllAcked
    rw [hl]

/-- Writes after which the master listens to the bits of a byte. -/
theorem Heard.puts_byte (h : Heard A P b) {ops : List PinOp} (hops : ops.count (.mode false) = 1) :
    Heard A P (b.puts (answering A) .byte ops) := by
  have hl := listens_puts (A := A) .byte ops b
  rw [hops, List.replicate_one] at hl
  refine ⟨?_, ?_⟩
  · rw [puts_slave, hops, h.count, hl, List.length_append, List.length_singleton]
  · rw [← h.acked]
    unfold AllAcked
    rw [hl]
    refine forall_congr' fun n => imp_congr_left ?_
    rcases Nat.lt_trichotomy n (listens b.trace).length with hlt | heq | hgt
    · rw [List.getElem?_append_left hlt]
    · subst heq
      simp
    · rw [List.getElem?_eq_none (by simp; omega), List.getElem?_eq_none (by omega)]

/-- Writes after which the master listens to a reply. -/
theorem Heard.puts_reply (h : Heard A P b) {ops : List PinOp}
    (hops : ops.count (.mode false) = 1) :
    Heard A (P ∧ acks A b.slave = true) (b.puts (answering A) .reply ops) := by
  have hl := listens_puts (A := A) .reply ops b
  rw [hops, List.replicate_one] at hl
  refine ⟨?_, ?_⟩
  · rw [puts_slave, hops, h.count, hl, List.length_append, List.length_singleton]
  · rw [← h.acked, h.count]
    unfold AllAcked
    rw [hl]
    constructor
    · intro hall
      refine ⟨fun n hn => hall n ?_, hall _ (by simp)⟩
      rw [List.getElem?_append_left (List.getElem?_eq_some_iff.mp hn).1]
      exact hn
    · rintro ⟨hold, hnew⟩ n hn
      rcases Nat.lt_trichotomy n (listens b.trace).length with hlt | heq | hgt
      · rw [List.getElem?_append_left hlt] at hn
        exact hold n hn
      · rw [heq]
        exact hnew
      · rw [List.getElem?_eq_none (by simp; omega)] at hn
        cases hn

theorem Heard.start (h : Heard A P b) : Heard A P (iicStart (answering A) b) := h.puts _ rfl

theorem Heard.stop (h : Heard A P b) : Heard A P (iicStop (answering A) b) := h.puts _ rfl

/-- **A byte that is sent** must be acknowledged. -/
theorem Heard.sendByte (h : Heard A P b) (data : BitVec 8) :
    Heard A (P ∧ acks A b.slave = true) (iicSendByte (answering A) data b).2 := by
  have hbits : Heard A P ((b.puts (answering A) .byte [.mode true]).puts (answering A) .byte
      (bitOps 8 data)) := (h.puts .byte rfl).puts .byte (count_bitOps 8 data)
  have hslave : ((b.puts (answering A) .byte [.mode true]).puts (answering A) .byte
      (bitOps 8 data)).slave = b.slave := by
    rw [puts_slave, puts_slave, count_bitOps]
    rfl
  have hops : [PinOp.mode false, .sda true, .scl true].count (.mode false) = 1 := rfl
  have hreply := hbits.puts_reply hops
  rw [hslave] at hreply
  unfold iicSendByte iicRxReply
  rw [sendBits_eq, rxReplyLoop_answering 251 (Nat.le_refl _)]
  dsimp only
  split
  · exact hreply.puts .reply rfl
  · exact hreply.stop

/-- **A byte that is read** asks for no acknowledge of the slave. -/
theorem Heard.readByte (h : Heard A P b) (isAck : Bool) :
    Heard A P (iicReadByte (answering A) isAck b).2 := by
  have hloop : ∀ n rxData (c : Bus Nat), Heard A P c →
      Heard A P (readBits (answering A) n rxData c).2 := by
    intro n
    induction n with
    | zero => exact fun _ _ hc => hc
    | succ n ih =>
      intro rxData c hc
      have hbit : Heard A P (c.puts (answering A) .byte [.scl false, .scl true]) :=
        hc.puts .byte rfl
      rw [readBits]
      exact ih _ _ hbit
  unfold iicReadByte iicTxReply
  exact (hloop 8 0 _ (h.puts_byte rfl)).puts .reply (by cases isAck <;> rfl)

theorem Heard.congr {Q : Prop} (h : Heard A P b) (hPQ : P ↔ Q) : Heard A Q b :=
  ⟨h.count, h.acked.trans hPQ⟩

/-- START and two bytes, as all four transfers begin. -/
theorem Heard.start_two_bytes (h : Heard A P b) (d d' : BitVec 8) :
    let b' := (iicSendByte (answering A) d' (iicSendByte (answering A) d
      (iicStart (answering A) b)).2).2
    Heard A (P ∧ acks A b.slave = true ∧ acks A (b.slave + 1) = true) b' ∧
      b'.slave = b.slave + 2 := by
  have hstart := start_slave (A := A) b
  have hslave := (sendByte_answering (A := A) d (iicStart (answering A) b)).2
  have htwo := (h.start.sendByte d).sendByte d'
  rw [hslave, hstart] at htwo
  refine ⟨htwo.congr and_assoc, ?_⟩
  rw [(sendByte_answering d' _).2, hslave, hstart]

/-! ## The transfers -/

/-- The first of `n + 1` rounds of `c` answers each, and the others. -/
theorem forall_round_succ (Q : Nat → Prop) (c n k : Nat) :
    (∀ i, i < n + 1 → Q (k + c * i)) ↔ Q k ∧ ∀ i, i < n → Q (k + c + c * i) := by
  constructor
  · intro h
    refine ⟨h 0 (Nat.succ_pos n), fun i hi => ?_⟩
    have := h (i + 1) (Nat.succ_lt_succ hi)
    rwa [Nat.mul_succ, Nat.add_comm (c * i), ← Nat.add_assoc] at this
  · rintro ⟨hfirst, hrest⟩ i hi
    cases i with
    | zero => exact hfirst
    | succ i =>
      have := hrest i (Nat.lt_of_succ_lt_succ hi)
      rwa [Nat.mul_succ, Nat.add_comm (c * i), ← Nat.add_assoc]

/-- A round of `AT24C02_Tx_Data` is three bytes; the last reply is its result. -/
theorem at24c02TxBody_heard (data : Nat → BitVec 8) (addr index : Nat) (h : Heard A P b) :
    let r := at24c02TxBody (answering A) data addr index b
    r.1 = acks A (b.slave + 2) ∧ r.2.slave = b.slave + 3 ∧
      Heard A (P ∧ acks A b.slave = true ∧ acks A (b.slave + 1) = true ∧
        acks A (b.slave + 2) = true) r.2 := by
  obtain ⟨htwo, hslave⟩ := h.start_two_bytes (at24c02Device addr index) (at24c02Word addr index)
  unfold at24c02TxBody
  dsimp only
  generalize (iicSendByte (answering A) (at24c02Word addr index) (iicSendByte (answering A)
    (at24c02Device addr index) (iicStart (answering A) b)).2).2 = b' at htwo hslave ⊢
  have hthree := (htwo.sendByte (data index)).stop
  obtain ⟨hret, hslave'⟩ := sendByte_answering (A := A) (data index) b'
  rw [hslave] at hthree hret hslave'
  refine ⟨hret, ?_, hthree.congr (by tauto)⟩
  rw [stop_slave, hslave']

/-- A round of `AT24C02_Rx_Data` is three bytes and the one that is read; the last reply is its
result. -/
theorem at24c02RxBody_heard (addr index : Nat) (h : Heard A P b) :
    let r := at24c02RxBody (answering A) addr index b
    r.1 = acks A (b.slave + 2) ∧ r.2.2.slave = b.slave + 4 ∧
      Heard A (P ∧ acks A b.slave = true ∧ acks A (b.slave + 1) = true ∧
        acks A (b.slave + 2) = true) r.2.2 := by
  obtain ⟨htwo, hslave⟩ := h.start_two_bytes (at24c02Device addr index) (at24c02Word addr index)
  unfold at24c02RxBody
  dsimp only
  generalize (iicSendByte (answering A) (at24c02Word addr index) (iicSendByte (answering A)
    (at24c02Device addr index) (iicStart (answering A) b)).2).2 = b' at htwo hslave ⊢
  have hthree := ((htwo.start.sendByte 0xA1).readByte false).stop
  obtain ⟨hret, hslave'⟩ := sendByte_answering (A := A) 0xA1 (iicStart (answering A) b')
  rw [start_slave, hslave] at hthree hret hslave'
  refine ⟨hret, ?_, hthree.congr (by tauto)⟩
  rw [stop_slave, readByte_answering, hslave']

/-- **The loop of `AT24C02_Tx_Data`** looks at the reply to the data byte, the third of each round.
-/
theorem at24c02TxLoop_heard (data : Nat → BitVec 8) (addr n index : Nat) (h : Heard A P b) :
    let r := at24c02TxLoop (answering A) data addr n index true b
    (r.1 = true ↔ ∀ i, i < n → acks A (b.slave + 3 * i + 2) = true) ∧
      Heard A (P ∧ ∀ i, i < n → acks A (b.slave + 3 * i) = true ∧
        acks A (b.slave + 3 * i + 1) = true ∧ acks A (b.slave + 3 * i + 2) = true) r.2 := by
  induction n generalizing index P b with
  | zero => exact ⟨iff_of_true rfl (by simp), h.congr (by simp)⟩
  | succ n ih =>
    obtain ⟨hret, hslave, hheard⟩ := at24c02TxBody_heard data addr index h
    rw [at24c02TxLoop, if_pos rfl, forall_round_succ (fun m => acks A (m + 2) = true),
      forall_round_succ fun m => acks A m = true ∧ acks A (m + 1) = true ∧ acks A (m + 2) = true]
    dsimp only
    rw [hret]
    cases hack : acks A (b.slave + 2) with
    | true =>
      obtain ⟨hloop, hrest⟩ := ih (index + 1) hheard
      rw [hslave] at hloop hrest
      refine ⟨hloop.trans (by simp), hrest.congr ?_⟩
      rw [hack, and_assoc]
    | false =>
      have hstop : at24c02TxLoop (answering A) data addr n (index + 1) false
          (at24c02TxBody (answering A) data addr index b).2 =
          (false, (at24c02TxBody (answering A) data addr index b).2) := by
        cases n <;> rfl
      rw [hstop]
      refine ⟨by simp, hheard.congr ?_⟩
      rw [hack]
      simp

/-- **The loop of `AT24C02_Rx_Data`** looks at the reply to the read command, the third of each
round; the fourth answer of a round is the byte. -/
theorem at24c02RxLoop_heard (addr n index : Nat) (buff : Nat → BitVec 8) (h : Heard A P b) :
    let r := at24c02RxLoop (answering A) addr n index true buff b
    (r.1 = true ↔ ∀ i, i < n → acks A (b.slave + 4 * i + 2) = true) ∧
      Heard A (P ∧ ∀ i, i < n → acks A (b.slave + 4 * i) = true ∧
        acks A (b.slave + 4 * i + 1) = true ∧ acks A (b.slave + 4 * i + 2) = true) r.2.2 := by
  induction n generalizing index P b buff with
  | zero => exact ⟨iff_of_true rfl (by simp), h.congr (by simp)⟩
  | succ n ih =>
    obtain ⟨hret, hslave, hheard⟩ := at24c02RxBody_heard addr index h
    rw [at24c02RxLoop, if_pos rfl, forall_round_succ (fun m => acks A (m + 2) = true),
      forall_round_succ fun m => acks A m = true ∧ acks A (m + 1) = true ∧ acks A (m + 2) = true]
    dsimp only
    rw [hret]
    cases hack : acks A (b.slave + 2) with
    | true =>
      obtain ⟨hloop, hrest⟩ := ih (index + 1)
        (Function.update buff index (at24c02RxBody (answering A) addr index b).2.1) hheard
      rw [hslave] at hloop hrest
      refine ⟨hloop.trans (by simp), hrest.congr ?_⟩
      rw [hack, and_assoc]
    | false =>
      have hstop : at24c02RxLoop (answering A) addr n (index + 1) false
          (Function.update buff index (at24c02RxBody (answering A) addr index b).2.1)
          (at24c02RxBody (answering A) addr index b).2.2 =
          (false, Function.update buff index (at24c02RxBody (answering A) addr index b).2.1,
            (at24c02RxBody (answering A) addr index b).2.2) := by
        cases n <;> rfl
      rw [hstop]
      refine ⟨by simp, hheard.congr ?_⟩
      rw [hack]
      simp

/-- **The opening of the MPU6050 transfers** looks at the third reply. -/
theorem mpu6050Open_heard (addr : Nat) (h : Heard A P b) :
    let r := mpu6050Open (answering A) addr b
    r.1 = acks A (b.slave + 2) ∧ r.2.slave = b.slave + 3 ∧
      Heard A (P ∧ acks A b.slave = true ∧ acks A (b.slave + 1) = true ∧
        acks A (b.slave + 2) = true) r.2 := by
  obtain ⟨htwo, hslave⟩ := h.start_two_bytes mpu6050Write (BitVec.ofNat 8 addr)
  have hthree := htwo.sendByte mpu6050Read
  obtain ⟨hret, hslave'⟩ := sendByte_answering (A := A) mpu6050Read
    (iicSendByte (answering A) (BitVec.ofNat 8 addr) (iicSendByte (answering A) mpu6050Write
      (iicStart (answering A) b)).2).2
  rw [hslave] at hthree hret hslave'
  exact ⟨hret, hslave', hthree.congr (by tauto)⟩

/-- **The loop of `MPU6050_Tx_Data`** looks at every reply. -/
theorem mpu6050TxLoop_heard (data : Nat → BitVec 8) (n index : Nat) (h : Heard A P b) :
    let r := mpu6050TxLoop (answering A) data n index true b
    (r.1 = true ↔ ∀ i, i < n → acks A (b.slave + i) = true) ∧
      Heard A (P ∧ ∀ i, i < n → acks A (b.slave + i) = true) r.2 := by
  induction n generalizing index P b with
  | zero => exact ⟨iff_of_true rfl (by simp), h.congr (by simp)⟩
  | succ n ih =>
    have hone := h.sendByte (data index)
    obtain ⟨hret, hslave⟩ := sendByte_answering (A := A) (data index) b
    have hround := forall_round_succ (fun m => acks A m = true) 1 n b.slave
    simp only [Nat.one_mul] at hround
    rw [mpu6050TxLoop, if_pos rfl, hround]
    dsimp only
    rw [hret]
    cases hack : acks A b.slave with
    | true =>
      obtain ⟨hloop, hrest⟩ := ih (index + 1) hone
      rw [hslave] at hloop hrest
      refine ⟨hloop.trans (by simp), hrest.congr ?_⟩
      rw [hack]
      simp only [and_true, true_and]
    | false =>
      have hstop : mpu6050TxLoop (answering A) data n (index + 1) false
          (iicSendByte (answering A) (data index) b).2 =
          (false, (iicSendByte (answering A) (data index) b).2) := by
        cases n <;> rfl
      rw [hstop]
      refine ⟨by simp, hone.congr ?_⟩
      rw [hack]
      simp

/-- The loop of `MPU6050_Rx_Data` sends nothing. -/
theorem mpu6050RxLoop_heard (n index : Nat) (buff : Nat → BitVec 8) (h : Heard A P b) :
    Heard A P (mpu6050RxLoop (answering A) n index buff b).2 := by
  induction n generalizing index buff b with
  | zero => exact h
  | succ n ih => exact ih (index + 1) _ (h.readByte (index != 1))

/-! ## The law -/

/-- The answers that the transfer looks at, when none of those before them is missing. -/
def Call.looked : Call → List Nat
  | .at24c02Tx _ _ txLen => (List.range txLen).map fun i => 3 * i + 2
  | .at24c02Rx _ rxLen _ => (List.range rxLen).map fun i => 4 * i + 2
  | .mpu6050Tx _ _ txLen => 2 :: (List.range txLen).map fun i => 3 + i
  | .mpu6050Rx _ _ _ => [2]

/-- The answers that the transfer overwrites with a later one. -/
def Call.ignored : Call → List Nat
  | .at24c02Tx _ _ txLen => (List.range txLen).flatMap fun i => [3 * i, 3 * i + 1]
  | .at24c02Rx _ rxLen _ => (List.range rxLen).flatMap fun i => [4 * i, 4 * i + 1]
  | .mpu6050Tx _ _ _ => [0, 1]
  | .mpu6050Rx _ _ _ => [0, 1]

/-- The length that `AT24C02_Rx_Data` accepts. -/
def Call.Fits : Call → Prop
  | .at24c02Rx _ rxLen _ => rxLen ≤ iicDataSizeMax
  | _ => True

/-- Rounds of `c` answers of which the third is looked at and the first two are overwritten. -/
theorem forall_rounds_iff (Q : Nat → Prop) (c n : Nat) :
    (∀ i, i < n → Q (c * i) ∧ Q (c * i + 1) ∧ Q (c * i + 2)) ↔
      (∀ m ∈ (List.range n).map fun i => c * i + 2, Q m) ∧
        ∀ m ∈ (List.range n).flatMap fun i => [c * i, c * i + 1], Q m := by
  constructor
  · intro h
    constructor
    · intro m hm
      obtain ⟨i, hi, rfl⟩ := List.mem_map.mp hm
      exact (h i (List.mem_range.mp hi)).2.2
    · intro m hm
      obtain ⟨i, hi, hmem⟩ := List.mem_flatMap.mp hm
      obtain ⟨h0, h1, -⟩ := h i (List.mem_range.mp hi)
      rcases List.mem_pair.mp hmem with rfl | rfl
      · exact h0
      · exact h1
  · rintro ⟨hlook, hign⟩ i hi
    have hi' := List.mem_range.mpr hi
    exact ⟨hign _ (List.mem_flatMap.mpr ⟨i, hi', by simp⟩),
      hign _ (List.mem_flatMap.mpr ⟨i, hi', by simp⟩), hlook _ (List.mem_map.mpr ⟨i, hi', rfl⟩)⟩

/-- **What a transfer returns, and what it should**: the one depends on the answers it looks at, the
other on these and on those it overwrites. -/
theorem call_heard (A : Answers) (c : Call) (hfits : c.Fits) :
    (c.result (answering A) ⟨0, []⟩ = true ↔ ∀ n ∈ c.looked, acks A n = true) ∧
      (AllAcked A (c.run (answering A) ⟨0, []⟩).trace ↔
        (∀ n ∈ c.looked, acks A n = true) ∧ ∀ n ∈ c.ignored, acks A n = true) := by
  cases c with
  | at24c02Tx data addr txLen =>
    obtain ⟨hres, hheard⟩ := at24c02TxLoop_heard (A := A) data addr txLen 0 (heard_nil A)
    simp only [Nat.zero_add, true_and] at hres hheard
    exact ⟨hres.trans (by simp [Call.looked]),
      hheard.acked.trans (forall_rounds_iff (fun m => acks A m = true) 3 txLen)⟩
  | at24c02Rx addr rxLen buff =>
    obtain ⟨hres, hheard⟩ := at24c02RxLoop_heard (A := A) addr rxLen 0 buff (heard_nil A)
    simp only [Nat.zero_add, true_and] at hres hheard
    have hlen : ¬ rxLen > iicDataSizeMax := Nat.not_lt.mpr hfits
    simp only [Call.result, Call.run, at24c02RxData, if_neg hlen]
    exact ⟨hres.trans (by simp [Call.looked]),
      hheard.acked.trans (forall_rounds_iff (fun m => acks A m = true) 4 rxLen)⟩
  | mpu6050Tx data addr txLen =>
    obtain ⟨hret, hslave, hopen⟩ := mpu6050Open_heard (A := A) addr (heard_nil A)
    simp only [Nat.zero_add, true_and] at hret hslave hopen
    simp only [Call.result, Call.run, mpu6050TxData]
    cases hack : acks A 2 with
    | false =>
      rw [hack] at hret
      simp only [hret, Bool.not_false, if_true]
      refine ⟨by simp [Call.looked, hack], hopen.stop.acked.trans ?_⟩
      simp [Call.looked, hack]
    | true =>
      rw [hack] at hret
      obtain ⟨hres, hloop⟩ := mpu6050TxLoop_heard (A := A) data txLen 0 hopen
      rw [hslave] at hres hloop
      simp only [hret, Bool.not_true, Bool.false_eq_true, if_false]
      refine ⟨hres.trans (by simp [Call.looked, hack]), hloop.stop.acked.trans ?_⟩
      simp only [Call.looked, Call.ignored, List.forall_mem_cons, List.forall_mem_map,
        List.mem_range, List.not_mem_nil, hack, true_and]
      tauto
  | mpu6050Rx addr rxLen buff =>
    obtain ⟨hret, hslave, hopen⟩ := mpu6050Open_heard (A := A) addr (heard_nil A)
    simp only [Nat.zero_add, true_and] at hret hslave hopen
    simp only [Call.result, Call.run, mpu6050RxData]
    cases hack : acks A 2 with
    | false =>
      rw [hack] at hret
      simp only [hret, Bool.not_false, if_true]
      refine ⟨by simp [Call.looked, hack], hopen.stop.acked.trans ?_⟩
      simp [Call.looked, hack]
    | true =>
      rw [hack] at hret
      have hloop := (mpu6050RxLoop_heard (A := A) rxLen 0 buff hopen).stop
      simp only [hret, Bool.not_true, Bool.false_eq_true, if_false]
      refine ⟨by simp [Call.looked, hack], hloop.acked.trans ?_⟩
      simp [Call.looked, Call.ignored, hack]

/-- **Reported acknowledges.** For every pattern of answers and every transfer, the result is `True`
iff every byte sent was acknowledged, exactly when one of the answers it looks at is missing, or all
those it overwrites are there: the device and the word address of every byte for the AT24C02, the
write address and the register for the MPU6050. -/
theorem call_reports_iff (A : Answers) (c : Call) (hfits : c.Fits) :
    Reports A c ↔
      (∃ n ∈ c.looked, acks A n = false) ∨ ∀ n ∈ c.ignored, acks A n = true := by
  obtain ⟨hres, hacked⟩ := call_heard A c hfits
  unfold Reports
  rw [hres, hacked]
  constructor
  · intro hiff
    by_cases hall : ∀ n ∈ c.looked, acks A n = true
    · exact Or.inr (hiff.mp hall).2
    · simp only [not_forall, Bool.not_eq_true] at hall
      obtain ⟨n, hn, hack⟩ := hall
      exact Or.inl ⟨n, hn, hack⟩
  · rintro (⟨n, hn, hack⟩ | hign)
    · have hno : ¬ ∀ n ∈ c.looked, acks A n = true := fun hall => by
        rw [hall n hn] at hack
        cases hack
      exact iff_of_false hno fun h => hno h.1
    · exact ⟨fun h => ⟨h, hign⟩, fun h => h.1⟩

/-- An answer that does not change while the master polls for it. -/
theorem acks_steady (nack : Nat → Bool) (n : Nat) : acks (fun n _ => nack n) n = !nack n := by
  unfold acks
  cases hn : nack n with
  | true => simp [hn]
  | false => exact List.any_eq_true.mpr ⟨0, by simp, by simp [hn]⟩

/-- A slave that acknowledges everything but the first data byte. -/
theorem call_reports_data_nack :
    Reports (fun n _ => n == 2) (.at24c02Tx (fun _ => 0x5A) 0 3) := by
  refine (call_reports_iff _ (.at24c02Tx (fun _ => 0x5A) 0 3) trivial).mpr (Or.inl ⟨2, ?_, ?_⟩)
  · decide
  · rw [acks_steady]
    rfl

/-- No slave at the device address, one byte: the reply to the data byte is all that counts. -/
theorem call_reports_address_nack :
    ¬ Reports (fun n _ => n == 0) (.at24c02Tx (fun _ => 0x5A) 0 1) := by
  obtain ⟨hres, hacked⟩ := call_heard (fun n _ => n == 0) (.at24c02Tx (fun _ => 0x5A) 0 1) trivial
  intro hlaw
  have hlooked : ∀ n ∈ Call.looked (.at24c02Tx (fun _ => 0x5A) 0 1),
      acks (fun n _ => n == 0) n = true := by
    simp [Call.looked, acks_steady]
  have hignored := (hacked.mp (hlaw.mp (hres.mpr hlooked))).2 0 (by decide)
  rw [acks_steady] at hignored
  exact absurd hignored (by decide)

end Stm32F407.I2c
