import Mathlib.Logic.Function.Iterate
import Stm32F407.Eth.Model
import Stm32F407.Lib.Runs

/-!
# The transmit ring

`low_level_output` produces frames and the DMA consumes them, so the ring implements a queue of
frames (`TxRing`, an instance of `Lib.RingRep`): a descriptor is busy when its `OWN` bit is set, and
the frame it holds is the first `ControlBufferSize` bytes of its buffer.

* `txRing_output`: with room in the ring, a call appends the concatenated payloads and returns
  `ERR_OK`.
* `txRing_output_full`: with the ring full, the call returns `ERR_MEM`, but the copy has come before
  the ownership test and has landed on the oldest frame that is still to be sent.
* `drain_emitted`: left alone, the DMA sends exactly the queue.
* `txRun_emitted_iff`: the wire carries what was accepted, throughout a run, iff no call on a full
  ring brings bytes that differ from those it overwrites.
-/

namespace Stm32F407.Eth

open Stm32F407.Lib

/-- The copy loop stores the concatenated payloads and counts them. -/
theorem copyToBuffer_eq (buffer : Nat) (p : List (List UInt8)) (buff : Nat → UInt8) (l : Nat) :
    copyToBuffer buffer p buff l = (blit buff (buffer + l) p.flatten, l + p.flatten.length) := by
  induction p generalizing buff l with
  | nil =>
    rw [copyToBuffer]
    have : blit buff (buffer + l) [] = buff := by
      funext i
      exact blit_of_out (by simp; omega)
    simp [this]
  | cons q p ih =>
    rw [copyToBuffer, ih, ← Nat.add_assoc, blit_append, List.flatten_cons, List.length_append,
      Nat.add_assoc]

/-- `low_level_output` on a descriptor the DMA has given back. -/
theorem lowLevelOutput_free {s : EthTx} {p : List (List UInt8)}
    (hp : p.flatten.length ≤ ethBufSize) (hfree : owned (s.desc s.dmaTxDescToSet) = false) :
    lowLevelOutput p s = (.ok, { s with
      txBuff := blit s.txBuff (ethGetCurrentTxBuffer s) p.flatten
      desc := setDesc s.desc s.dmaTxDescToSet
        { s.desc s.dmaTxDescToSet with
          controlBufferSize := p.flatten.length
          status := (s.desc s.dmaTxDescToSet).status ||| txDescLsFs ||| descOwn }
      tbus := false
      dmaTxDescToSet := (s.desc s.dmaTxDescToSet).buffer2NextDescAddr }) := by
  have hlen : (p.flatten.length % 2 ^ 16) &&& txDescTbs1 = p.flatten.length := by
    unfold ethBufSize at hp
    rw [Nat.mod_eq_of_lt (by omega), show txDescTbs1 = 2 ^ 13 - 1 from rfl,
      Nat.and_two_pow_sub_one_eq_mod, Nat.mod_eq_of_lt (by omega)]
  unfold lowLevelOutput
  simp only [copyToBuffer_eq, ethTxPacket, hfree, Bool.false_eq_true, if_false, Nat.zero_add,
    Nat.add_zero, hlen]

/-- `low_level_output` on a descriptor the DMA still owns: only the buffer changes. -/
theorem lowLevelOutput_owned {s : EthTx} (p : List (List UInt8))
    (hown : owned (s.desc s.dmaTxDescToSet) = true) :
    lowLevelOutput p s =
      (.mem, { s with txBuff := blit s.txBuff (ethGetCurrentTxBuffer s) p.flatten }) := by
  unfold lowLevelOutput
  simp only [copyToBuffer_eq, ethTxPacket, hown, if_true, Nat.add_zero]

/-! ## The ring as a queue of frames -/

/-- The transmit ring implements the queue `q` of frames. -/
structure TxRing (n : Nat) (s : EthTx) (q : List (List UInt8)) : Prop where
  rep : RingRep n (fun i => owned (s.desc i)) (txFrame s) s.dmaCursor s.dmaTxDescToSet q
  chain : ∀ i, i < n → (s.desc i).buffer2NextDescAddr = nextIdx n i
  buffer : ∀ i, i < n → (s.desc i).buffer1Addr = i * ethBufSize
  size : ∀ i, i < n → owned (s.desc i) = true → (s.desc i).controlBufferSize ≤ ethBufSize

variable {n : Nat} {s : EthTx} {q : List (List UInt8)}

/-- Right after `ETH_DMATxDescChainInit` nothing is to be sent. -/
theorem txRing_init (hn : 0 < n) (s : EthTx) : TxRing n (ethDmaTxDescChainInit n s) [] := by
  have hfree : ∀ i, i < n → owned ((ethDmaTxDescChainInit n s).desc i) = false := by
    intro i hi
    simp only [ethDmaTxDescChainInit, if_pos hi]
    simp [owned, txDescTch, txDescChecksum, descOwn]
  refine ⟨RingRep.empty hn hfree, ?_, ?_, fun i hi ho => ?_⟩
  · intro i hi
    simp only [ethDmaTxDescChainInit, if_pos hi]
    unfold nextIdx
    split <;> split <;> omega
  · intro i hi
    simp only [ethDmaTxDescChainInit, if_pos hi]
  · rw [hfree i hi] at ho
    exact absurd ho (by simp)

/-- Two buffers of the pool do not overlap. -/
theorem buffer_apart {i j a b : Nat} (hij : i ≠ j) (ha : a ≤ ethBufSize) (hb : b ≤ ethBufSize) :
    j * ethBufSize + b ≤ i * ethBufSize ∨ i * ethBufSize + a ≤ j * ethBufSize := by
  unfold ethBufSize at *
  omega

/-- The copy into the current buffer touches no other pending frame. -/
theorem txFrame_copy_of_ne (h : TxRing n s q) {xs : List UInt8} (hxs : xs.length ≤ ethBufSize)
    {i : Nat} (hi : i < n) (hne : i ≠ s.dmaTxDescToSet) (ho : owned (s.desc i) = true) :
    readRun (blit s.txBuff (ethGetCurrentTxBuffer s) xs) (s.desc i).buffer1Addr
      (s.desc i).controlBufferSize = txFrame s i := by
  unfold txFrame ethGetCurrentTxBuffer
  rw [h.buffer i hi, h.buffer _ h.rep.tail_lt]
  exact readRun_blit_of_apart (buffer_apart (Ne.symm hne) hxs (h.size i hi ho))

/-- **A call with room in the ring** queues the concatenated payloads. -/
theorem txRing_output (h : TxRing n s q) {p : List (List UInt8)}
    (hp : p.flatten.length ≤ ethBufSize) (hfree : owned (s.desc s.dmaTxDescToSet) = false) :
    (lowLevelOutput p s).1 = .ok ∧ (lowLevelOutput p s).2.emitted = s.emitted ∧
      TxRing n (lowLevelOutput p s).2 (q ++ [p.flatten]) := by
  have hroom : q.length < n := by
    have hne : q.length ≠ n := fun he => by
      have := h.rep.tail_busy.mpr he
      rw [hfree] at this
      exact absurd this (by simp)
    have := h.rep.len_le
    omega
  rw [lowLevelOutput_free hp hfree]
  refine ⟨rfl, rfl, ?_, ?_, ?_, ?_⟩
  · show RingRep n _ _ s.dmaCursor (s.desc s.dmaTxDescToSet).buffer2NextDescAddr _
    rw [h.chain _ h.rep.tail_lt]
    refine h.rep.push hroom (fun i _ => ?_) ?_ fun i hi hne ho => ?_
    · by_cases hi : i = s.dmaTxDescToSet <;> simp [hi]
    · simp only [txFrame, setDesc_self]
      exact readRun_blit_self _ _ _
    · simp only [txFrame, setDesc_ne _ _ hne]
      exact txFrame_copy_of_ne h hp hi hne ho
  · intro i hi
    by_cases he : i = s.dmaTxDescToSet
    · simp [he, h.chain _ h.rep.tail_lt]
    · simp [he, h.chain i hi]
  · intro i hi
    by_cases he : i = s.dmaTxDescToSet
    · simp [he, h.buffer _ h.rep.tail_lt]
    · simp [he, h.buffer i hi]
  · intro i hi ho
    by_cases he : i = s.dmaTxDescToSet
    · simpa [he] using hp
    · simp only [setDesc_ne _ _ he] at ho ⊢
      exact h.size i hi ho

/-- **A call on a full ring** fails, and leaves its bytes in the frame at the front of the queue. -/
theorem txRing_output_full (h : TxRing n s q) {p : List (List UInt8)}
    (hp : p.flatten.length ≤ ethBufSize) (hown : owned (s.desc s.dmaTxDescToSet) = true) :
    (lowLevelOutput p s).1 = .mem ∧ (lowLevelOutput p s).2.emitted = s.emitted ∧
      ∃ q', q = txFrame s s.dmaTxDescToSet :: q' ∧
        TxRing n (lowLevelOutput p s).2
          (readRun (blit s.txBuff (s.desc s.dmaTxDescToSet).buffer1Addr p.flatten)
            (s.desc s.dmaTxDescToSet).buffer1Addr
            (s.desc s.dmaTxDescToSet).controlBufferSize :: q') := by
  have hfull := h.rep.tail_busy.mp hown
  rw [lowLevelOutput_owned p hown]
  refine ⟨rfl, rfl, ?_⟩
  cases q with
  | nil =>
    have := h.rep.head_lt
    simp at hfull
    omega
  | cons x q' =>
    have hhead : s.dmaTxDescToSet = s.dmaCursor := by
      have := h.rep.tail_at
      rwa [if_neg (by omega)] at this
    have hx : txFrame s s.dmaTxDescToSet = x := by
      rw [hhead]
      exact h.rep.head_slot
    refine ⟨q', by rw [hx], ?_, h.chain, h.buffer, h.size⟩
    refine h.rep.overwrite hfull (fun i _ => rfl) rfl fun i hi hne => ?_
    have hbusy : owned (s.desc i) = true := by
      have := h.rep.busy_iff hi
      rw [this, hfull]
      exact ahead_lt h.rep.head_lt hi
    exact txFrame_copy_of_ne h hp hi hne hbusy

/-! ## The DMA drains the queue -/

/-- A DMA step sends the front of the queue. -/
theorem txRing_dma_cons {x : List UInt8} (h : TxRing n s (x :: q)) :
    (dmaTxStep s).emitted = s.emitted ++ [x] ∧ TxRing n (dmaTxStep s) q := by
  have hown : owned (s.desc s.dmaCursor) = true := h.rep.head_busy.mpr (by simp)
  unfold dmaTxStep
  simp only [hown, if_true]
  refine ⟨by rw [h.rep.head_slot], ?_, ?_, ?_, ?_⟩
  · show RingRep n _ _ (s.desc s.dmaCursor).buffer2NextDescAddr s.dmaTxDescToSet q
    rw [h.chain _ h.rep.head_lt]
    refine h.rep.pop (fun i _ => ?_) fun i _ hne _ => by simp [txFrame, hne]
    by_cases hi : i = s.dmaCursor <;> simp [hi]
  · intro i hi
    by_cases he : i = s.dmaCursor
    · simp [he, h.chain _ h.rep.head_lt]
    · simp [he, h.chain i hi]
  · intro i hi
    by_cases he : i = s.dmaCursor
    · simp [he, h.buffer _ h.rep.head_lt]
    · simp [he, h.buffer i hi]
  · intro i hi ho
    by_cases he : i = s.dmaCursor
    · simp [he] at ho
    · simp only [setDesc_ne _ _ he] at ho ⊢
      exact h.size i hi ho

/-- With nothing queued a DMA step sends nothing. -/
theorem txRing_dma_nil (h : TxRing n s []) :
    (dmaTxStep s).emitted = s.emitted ∧ TxRing n (dmaTxStep s) [] := by
  have hown : owned (s.desc s.dmaCursor) ≠ true := fun ho => h.rep.head_busy.mp ho rfl
  unfold dmaTxStep
  rw [if_neg hown]
  exact ⟨rfl, h.rep, h.chain, h.buffer, h.size⟩

/-- **Draining**: with steps enough, the DMA sends exactly the queue, in order. -/
theorem drain_emitted (k : Nat) (h : TxRing n s q) (hk : q.length ≤ k) :
    (dmaTxStep^[k] s).emitted = s.emitted ++ q := by
  induction k generalizing s q with
  | zero =>
    obtain rfl : q = [] := List.length_eq_zero_iff.mp (Nat.le_zero.mp hk)
    simp
  | succ k ih =>
    rw [Function.iterate_succ_apply]
    cases q with
    | nil =>
      obtain ⟨he, hr⟩ := txRing_dma_nil h
      rw [ih hr (Nat.zero_le k), he]
    | cons x q =>
      obtain ⟨he, hr⟩ := txRing_dma_cons h
      rw [ih hr (Nat.le_of_succ_le_succ hk), he, List.append_assoc, List.singleton_append]

/-! ## Runs of the ring -/

/-- A `pbuf` chain that fits a transmit buffer (`ETH_TX_BUF_SIZE`). -/
abbrev TxChain := { p : List (List UInt8) // p.flatten.length ≤ ethBufSize }

/-- What happens to the ring: the stack sends a chain, or the DMA takes a step. -/
inductive TxEvent where
  | output (p : TxChain)
  | dma

/-- The ring with the frames of the calls that returned `ERR_OK`, in call order. -/
structure TxState where
  eth : EthTx
  accepted : List (List UInt8)

/-- One event. -/
def txStep (t : TxState) : TxEvent → TxState
  | .output p =>
    { eth := (lowLevelOutput p.1 t.eth).2
      accepted := match (lowLevelOutput p.1 t.eth).1 with
        | .ok => t.accepted ++ [p.1.flatten]
        | _ => t.accepted }
  | .dma => { t with eth := dmaTxStep t.eth }

/-- The driver right after `ETH_DMATxDescChainInit`, with nothing sent yet. -/
def txStart (s₀ : EthTx) : TxState :=
  ⟨{ ethDmaTxDescChainInit ethTxBufNb s₀ with emitted := [] }, []⟩

/-- After the event, what is on the wire begins what was accepted, and what the DMA will have put
there once it has sent the pending frames is exactly what was accepted. -/
def TxLaw (t : TxState) (e : TxEvent) : Prop :=
  (txStep t e).eth.emitted <+: (txStep t e).accepted ∧
    (dmaTxStep^[ethTxBufNb] (txStep t e).eth).emitted = (txStep t e).accepted

/-- A call finds room, or stores over the pending frame the bytes it already has. -/
def TxOk (t : TxState) (e : TxEvent) : Prop :=
  match e with
  | .dma => True
  | .output p =>
    let d := t.eth.desc t.eth.dmaTxDescToSet
    owned d = true → ∀ i, i < d.controlBufferSize → i < p.1.flatten.length →
      p.1.flatten[i]? = some (t.eth.txBuff (d.buffer1Addr + i))

/-- The invariant: what is on the wire and what is queued make up what was accepted. -/
def TxInv (t : TxState) : Prop :=
  ∃ q, TxRing ethTxBufNb t.eth q ∧ t.eth.emitted ++ q = t.accepted

variable {t : TxState}

theorem txInv_start (s₀ : EthTx) : TxInv (txStart s₀) := by
  obtain ⟨hrep, hchain, hbuf, hsize⟩ := txRing_init (n := ethTxBufNb) (by decide) s₀
  exact ⟨[], ⟨hrep, hchain, hbuf, hsize⟩, rfl⟩

/-- For a ring that implements `q`, the law says that the wire and the queue make up what was
accepted. -/
theorem txLaw_iff_of_ring {e : TxEvent} (h : TxRing ethTxBufNb (txStep t e).eth q) :
    TxLaw t e ↔ (txStep t e).eth.emitted ++ q = (txStep t e).accepted := by
  unfold TxLaw
  rw [drain_emitted ethTxBufNb h h.rep.len_le]
  constructor
  · exact fun hl => hl.2
  · exact fun hl => ⟨⟨q, hl⟩, hl⟩

/-- The event leaves a ring that implements some queue, and this queue keeps the invariant iff the
event meets `TxOk`. -/
theorem txStep_spec (e : TxEvent) (h : TxInv t) :
    ∃ q, TxRing ethTxBufNb (txStep t e).eth q ∧
      ((txStep t e).eth.emitted ++ q = (txStep t e).accepted ↔ TxOk t e) := by
  obtain ⟨q, hring, hacc⟩ := h
  cases e with
  | dma =>
    cases q with
    | nil =>
      obtain ⟨he, hr⟩ := txRing_dma_nil hring
      refine ⟨[], hr, iff_of_true ?_ trivial⟩
      show (dmaTxStep t.eth).emitted ++ [] = t.accepted
      rw [he, hacc]
    | cons x q =>
      obtain ⟨he, hr⟩ := txRing_dma_cons hring
      refine ⟨q, hr, iff_of_true ?_ trivial⟩
      show (dmaTxStep t.eth).emitted ++ q = t.accepted
      rw [he, List.append_assoc, List.singleton_append, hacc]
  | output p =>
    by_cases hown : owned (t.eth.desc t.eth.dmaTxDescToSet) = true
    · obtain ⟨hret, he, q', hq, hr⟩ := txRing_output_full hring p.2 hown
      refine ⟨_, hr, ?_⟩
      simp only [txStep, TxOk, hret, he, hown, forall_const]
      -- the ring still sends what was accepted iff the front frame reads as before
      rw [← readRun_blit_eq_iff, ← hacc, hq, List.append_cancel_left_eq, List.cons.injEq]
      exact ⟨fun h => h.1, fun h => ⟨h, rfl⟩⟩
    · obtain ⟨hret, he, hr⟩ := txRing_output hring p.2 (by simpa using hown)
      refine ⟨_, hr, iff_of_true ?_ fun ho => absurd ho hown⟩
      simp only [txStep, hret, he]
      rw [← List.append_assoc, hacc]

theorem txInv_step (e : TxEvent) (h : TxInv t) (hok : TxOk t e) : TxInv (txStep t e) := by
  obtain ⟨q, hr, hiff⟩ := txStep_spec e h
  exact ⟨q, hr, hiff.mpr hok⟩

theorem txLaw_iff (e : TxEvent) (h : TxInv t) : TxLaw t e ↔ TxOk t e := by
  obtain ⟨q, hr, hiff⟩ := txStep_spec e h
  rw [txLaw_iff_of_ring hr, hiff]

/-- **The transmit ring.** Over every run of `low_level_output` calls and DMA steps after
`ETH_DMATxDescChainInit`, the frames on the wire are at every point those of the accepted calls, in
call order, iff every call made while the ring is full carries, over the length of the oldest
pending frame, the bytes of that frame. -/
theorem txRun_emitted_iff (s₀ : EthTx) (es : List TxEvent) :
    AllSteps txStep TxLaw (txStart s₀) es ↔ AllSteps txStep TxOk (txStart s₀) es :=
  allSteps_iff (fun _ e h hok => txInv_step e h hok) (fun _ e h => txLaw_iff e h) (txInv_start s₀)

/-- A reset transmit side, before `ETH_DMATxDescChainInit`. -/
def txReset : EthTx where
  desc _ := ⟨0, 0, 0, 0⟩
  dmaTxDescToSet := 0
  txBuff _ := 0
  dmaCursor := 0
  tbus := false
  emitted := []

/-- The chain of one `pbuf` of one byte. -/
def oneByte (b : UInt8) : TxChain := ⟨[[b]], by simp [ethBufSize]⟩

/-- Five one-byte frames fill the ring; the sixth call returns `ERR_MEM` and the first frame is now
its byte. -/
theorem txRun_full_ring_alters :
    ¬ AllSteps txStep TxLaw (txStart txReset)
      [.output (oneByte 1), .output (oneByte 2), .output (oneByte 3), .output (oneByte 4),
        .output (oneByte 5), .output (oneByte 6)] := by
  rintro ⟨-, -, -, -, -, ⟨-, hsent⟩, -⟩
  revert hsent
  decide +kernel

end Stm32F407.Eth
