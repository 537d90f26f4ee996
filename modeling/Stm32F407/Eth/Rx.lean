import Mathlib.Data.List.TakeWhile
import Stm32F407.Eth.Model
import Stm32F407.Lib.Runs

/-!
# The receive ring

The DMA produces completed descriptors and `ETH_IRQHandler` consumes them, so the ring implements a
queue of completion statuses (`RxRing`, an instance of `Lib.RingRep`): a descriptor is busy when its
`OWN` bit is clear, the driver reads at `DMARxDescToGet` and the DMA writes at its cursor.

* `ethGetRxPktSize_ne_zero_iff`: what the handler's loop guard asks of a descriptor.
* `rxRing_dma`, `rxRing_input`: a completion pushes, one round of the handler pops.
* `rxRing_irq`: the handler drops the accepted statuses from the front of the queue and stops at the
  first one its guard does not accept. `ETH_Rx_Packet` would consume that one too, but it is never
  asked.
* `rxRun_owned_iff`: the handler returns with every descriptor given back iff it was called with
  none waiting that its guard refuses.
-/

namespace Stm32F407.Eth

open Stm32F407.Lib

/-! ## The loop guard -/

/-- A completion status the handler's guard accepts: no error, last segment, nonzero length. -/
def Accepted (status : BitVec 32) : Prop :=
  status &&& rxDescEs = 0 ∧ status &&& rxDescLs ≠ 0 ∧ status &&& rxDescFl ≠ 0

instance (status : BitVec 32) : Decidable (Accepted status) := inferInstanceAs (Decidable (_ ∧ _))

/-- The length field keeps its bits when shifted down. -/
theorem frameLength_eq_zero_iff (x : BitVec 32) :
    (x &&& rxDescFl) >>> 16 = 0 ↔ x &&& rxDescFl = 0 := by
  constructor
  · intro h
    have hlow : (x &&& rxDescFl).toNat % 2 ^ 16 = 0 := by
      have hm : rxDescFl.toNat = 2 ^ 16 * 0x3FFF := rfl
      rw [BitVec.toNat_and, Nat.and_mod_two_pow, hm, Nat.mul_mod_right, Nat.and_zero]
    have hhigh : (x &&& rxDescFl).toNat / 2 ^ 16 = 0 := by
      have := congrArg BitVec.toNat h
      rwa [BitVec.toNat_ushiftRight, Nat.shiftRight_eq_div_pow] at this
    apply BitVec.eq_of_toNat_eq
    have := Nat.div_add_mod (x &&& rxDescFl).toNat (2 ^ 16)
    rw [hlow, hhigh] at this
    exact this.symm
  · intro h
    rw [h]
    rfl

/-- **The guard**: completed, and of an accepted status. -/
theorem ethGetRxPktSize_ne_zero_iff (d : EthDmaDesc) :
    ethGetRxPktSize d ≠ 0 ↔ owned d = false ∧ Accepted d.status := by
  have hown : owned d = false ↔ d.status &&& descOwn = 0 := by simp [owned]
  rw [hown]
  unfold ethGetRxPktSize ethGetDmaRxDescFrameLength Accepted
  split
  · rename_i h
    obtain ⟨ho, he, hl⟩ := h
    rw [ne_eq, frameLength_eq_zero_iff]
    exact ⟨fun hfl => ⟨ho, he, hl, hfl⟩, fun h => h.2.2.2⟩
  · rename_i h
    exact ⟨fun h0 => absurd rfl h0, fun hr => absurd ⟨hr.1, hr.2.1, hr.2.2.1⟩ h⟩

/-! ## The ring as a queue of statuses -/

/-- The receive ring implements the queue `q` of completion statuses. -/
structure RxRing (n : Nat) (s : EthRx) (q : List (BitVec 32)) : Prop where
  rep : RingRep n (fun i => !owned (s.desc i)) (fun i => (s.desc i).status) s.dmaRxDescToGet
    s.dmaCursor q
  chain : ∀ i, i < n → (s.desc i).buffer2NextDescAddr = nextIdx n i

variable {n : Nat} {s : EthRx} {q : List (BitVec 32)}

/-- Right after `ETH_DMARxDescChainInit` no completion waits. -/
theorem rxRing_init (hn : 0 < n) (s : EthRx) : RxRing n (ethDmaRxDescChainInit n s) [] where
  rep := RingRep.empty hn fun i hi => by
    simp only [ethDmaRxDescChainInit, if_pos hi]
    simp [owned, descOwn]
  chain i hi := by
    simp only [ethDmaRxDescChainInit, if_pos hi]
    unfold nextIdx
    split <;> split <;> omega

/-- A completion by the DMA joins the queue, or finds the ring full. -/
theorem rxRing_dma (h : RxRing n s q) (status : BitVec 32) (data : List UInt8) :
    RxRing n (dmaRxStep status data s)
      (if q.length < n then q ++ [status &&& ~~~descOwn] else q) := by
  have htail := h.rep.tail_busy
  unfold dmaRxStep
  by_cases hb : owned (s.desc s.dmaCursor) = true
  · rw [hb] at htail
    have hroom : q.length < n := by
      have hne : q.length ≠ n := fun he => by simpa using htail.mpr he
      have := h.rep.len_le
      omega
    simp only [if_pos hb]
    rw [if_pos hroom]
    constructor
    · show RingRep n _ _ s.dmaRxDescToGet (s.desc s.dmaCursor).buffer2NextDescAddr _
      rw [h.chain _ h.rep.tail_lt]
      refine h.rep.push hroom (fun i _ => ?_) (by simp) fun i _ hne _ => by simp [hne]
      by_cases hi : i = s.dmaCursor <;> simp [hi]
    · intro i hi
      by_cases he : i = s.dmaCursor
      · simp [he, h.chain _ h.rep.tail_lt]
      · simp [he, h.chain i hi]
  · have hfull : q.length = n := htail.mp (by simpa using hb)
    simp only [if_neg hb]
    rw [if_neg (by omega)]
    exact ⟨h.rep, h.chain⟩

/-- One round of the handler on a waiting completion takes it off the queue, whatever its status
and whatever `pbuf_alloc` answered. -/
theorem rxRing_input {st : BitVec 32} (h : RxRing n s (st :: q))
    (alloc : Nat → Option (List Nat)) : RxRing n (ethernetifInput alloc s) q := by
  have hbusy : owned (s.desc s.dmaRxDescToGet) = false := by
    have := h.rep.head_busy.mpr (by simp)
    simpa using this
  have hown : (s.desc s.dmaRxDescToGet).status &&& descOwn = 0 := by
    simpa [owned] using hbusy
  have key : RxRing n { s with
      dmaRxDescToGet := (s.desc s.dmaRxDescToGet).buffer2NextDescAddr
      desc := setDesc s.desc s.dmaRxDescToGet
        { s.desc s.dmaRxDescToGet with status := descOwn }
      rbus := false } q := by
    constructor
    · show RingRep n _ _ (s.desc s.dmaRxDescToGet).buffer2NextDescAddr s.dmaCursor q
      rw [h.chain _ h.rep.head_lt]
      refine h.rep.pop (fun i _ => ?_) fun i _ hne _ => by simp [hne]
      by_cases hi : i = s.dmaRxDescToGet <;> simp [hi]
    · intro i hi
      by_cases he : i = s.dmaRxDescToGet
      · simp [he, h.chain _ h.rep.head_lt]
      · simp [he, h.chain i hi]
  unfold ethernetifInput lowLevelInput ethRxPacket
  simp only [hown, ne_eq, not_true_eq_false, if_false]
  split
  · rename_i heq
    rw [← (Prod.mk.inj heq).2]
    exact key
  · rename_i heq
    rw [← (Prod.mk.inj heq).2]
    exact ⟨key.rep, key.chain⟩

/-! ## The handler -/

/-- The handler's guard, read on the queue: the front is there and accepted. -/
theorem guard_iff (h : RxRing n s q) :
    ethGetRxPktSize (s.desc s.dmaRxDescToGet) ≠ 0 ↔ ∃ st q', q = st :: q' ∧ Accepted st := by
  rw [ethGetRxPktSize_ne_zero_iff]
  have hbusy := h.rep.head_busy
  cases q with
  | nil => simp at hbusy; simp [hbusy]
  | cons st q' =>
    have hst := h.rep.head_slot
    simp at hbusy
    simp [hbusy, hst]

/-- **The loop**: with rounds enough for the queue, it drops the accepted statuses at the front. -/
theorem rxRing_irqLoop (allocs : Nat → Nat → Option (List Nat)) (fuel k : Nat)
    (h : RxRing n s q) (hfuel : q.length ≤ fuel) :
    RxRing n (ethIrqLoop allocs fuel k s) (q.dropWhile fun st => decide (Accepted st)) := by
  induction fuel generalizing s q k with
  | zero =>
    obtain rfl : q = [] := List.length_eq_zero_iff.mp (Nat.le_zero.mp hfuel)
    exact h
  | succ fuel ih =>
    rw [ethIrqLoop]
    split
    · rename_i hg
      obtain ⟨st, q', rfl, hacc⟩ := (guard_iff h).mp hg
      rw [List.dropWhile_cons_of_pos (by simpa using hacc)]
      exact ih (k + 1) (rxRing_input h (allocs k)) (Nat.le_of_succ_le_succ hfuel)
    · rename_i hg
      cases q with
      | nil => exact h
      | cons st q' =>
        have hacc : ¬ Accepted st := fun hacc => hg ((guard_iff h).mpr ⟨st, q', rfl, hacc⟩)
        rw [List.dropWhile_cons_of_neg (by simpa using hacc)]
        exact h

/-- **The interrupt handler on the queue.** -/
theorem rxRing_irq (h : RxRing n s q) (allocs : Nat → Nat → Option (List Nat)) :
    RxRing n (ethIrqHandler n allocs s) (q.dropWhile fun st => decide (Accepted st)) :=
  rxRing_irqLoop allocs n 0 h h.rep.len_le

/-- The handler does return: after its rounds the guard fails. -/
theorem ethIrqHandler_exits (h : RxRing n s q) (allocs : Nat → Nat → Option (List Nat)) :
    ethGetRxPktSize ((ethIrqHandler n allocs s).desc (ethIrqHandler n allocs s).dmaRxDescToGet)
      = 0 := by
  by_contra hg
  obtain ⟨st, q', heq, hacc⟩ := (guard_iff (rxRing_irq h allocs)).mp hg
  have := List.head?_dropWhile_not (fun st => decide (Accepted st)) q
  rw [heq] at this
  simp [hacc] at this

/-- Nothing waits iff the driver's descriptor belongs to the DMA. -/
theorem RxRing.head_owned_iff (h : RxRing n s q) :
    owned (s.desc s.dmaRxDescToGet) = true ↔ q = [] := by
  have := h.rep.head_busy
  simp only [Bool.not_eq_true', ne_eq] at this
  rw [← Bool.not_eq_false, this, not_not]

/-- Nothing waits iff every descriptor belongs to the DMA. -/
theorem RxRing.all_owned_iff (h : RxRing n s q) :
    (∀ i, i < n → owned (s.desc i) = true) ↔ q = [] := by
  constructor
  · intro hall
    exact h.head_owned_iff.mp (hall _ h.rep.head_lt)
  · rintro rfl i hi
    have := h.rep.busy_iff hi
    simpa using this

/-- The statuses of the completed descriptors are those of the queue. -/
theorem RxRing.forall_status_iff (h : RxRing n s q) (P : BitVec 32 → Prop) :
    (∀ i, i < n → owned (s.desc i) = false → P (s.desc i).status) ↔ ∀ st ∈ q, P st := by
  rw [← h.rep.forall_busy_iff P]
  simp

/-! ## Runs of the ring -/

/-- What happens to the ring: a completion by the DMA, or an interrupt. -/
inductive RxEvent where
  | dma (status : BitVec 32) (data : List UInt8)
  | irq (allocs : Nat → Nat → Option (List Nat))

/-- One event. -/
def rxStep (s : EthRx) : RxEvent → EthRx
  | .dma status data => dmaRxStep status data s
  | .irq allocs => ethIrqHandler ethRxBufNb allocs s

/-- The handler's loop is over when `ETH_IRQHandler` returns. -/
def RxExits (s : EthRx) (e : RxEvent) : Prop :=
  match e with
  | .dma _ _ => True
  | .irq _ => ethGetRxPktSize ((rxStep s e).desc (rxStep s e).dmaRxDescToGet) = 0

/-- When `ETH_IRQHandler` returns, the descriptor at `DMARxDescToGet` belongs to the DMA, and so
does every other one: all completed descriptors have been given back. -/
def RxLaw (s : EthRx) (e : RxEvent) : Prop :=
  match e with
  | .dma _ _ => True
  | .irq _ => owned ((rxStep s e).desc (rxStep s e).dmaRxDescToGet) = true ∧
      ∀ i, i < ethRxBufNb → owned ((rxStep s e).desc i) = true

/-- `ETH_IRQHandler` is entered with no completed descriptor that its guard refuses. -/
def RxOk (s : EthRx) (e : RxEvent) : Prop :=
  match e with
  | .dma _ _ => True
  | .irq _ => ∀ i, i < ethRxBufNb → owned (s.desc i) = false → Accepted (s.desc i).status

/-- The invariant: the driver's ring implements some queue. -/
def RxInv (s : EthRx) : Prop := ∃ q, RxRing ethRxBufNb s q

/-- Every event keeps the ring a queue. -/
theorem rxInv_step (e : RxEvent) (h : RxInv s) : RxInv (rxStep s e) := by
  obtain ⟨q, hq⟩ := h
  cases e with
  | dma status data => exact ⟨_, rxRing_dma hq status data⟩
  | irq allocs => exact ⟨_, rxRing_irq hq allocs⟩

theorem rxExits_of_inv (e : RxEvent) (h : RxInv s) : RxExits s e := by
  obtain ⟨q, hq⟩ := h
  cases e with
  | dma status data => trivial
  | irq allocs => exact ethIrqHandler_exits hq allocs

/-- One interrupt empties the queue iff its guard accepts all of it. -/
theorem rxLaw_iff (e : RxEvent) (h : RxInv s) : RxLaw s e ↔ RxOk s e := by
  obtain ⟨q, hq⟩ := h
  cases e with
  | dma status data => exact Iff.rfl
  | irq allocs =>
    have hirq : RxRing ethRxBufNb (rxStep s (.irq allocs)) _ := rxRing_irq hq allocs
    unfold RxLaw RxOk
    simp only
    rw [hirq.head_owned_iff, hirq.all_owned_iff, and_self, hq.forall_status_iff,
      List.dropWhile_eq_nil_iff]
    simp

/-- **The receive ring.** From `ETH_DMARxDescChainInit` on, over every run of completions and
interrupts, `ETH_IRQHandler` always returns; and it returns with all completed descriptors given
back, throughout the run, iff it is never entered with a completed descriptor whose status has `ES`
set, `LS` clear or a zero frame length. -/
theorem rxRun_owned_iff (s₀ : EthRx) (es : List RxEvent) :
    AllSteps rxStep RxExits (ethDmaRxDescChainInit ethRxBufNb s₀) es ∧
    (AllSteps rxStep RxLaw (ethDmaRxDescChainInit ethRxBufNb s₀) es ↔
      AllSteps rxStep RxOk (ethDmaRxDescChainInit ethRxBufNb s₀) es) := by
  have hinit : RxInv (ethDmaRxDescChainInit ethRxBufNb s₀) := ⟨[], rxRing_init (by decide) s₀⟩
  constructor
  · exact allSteps_of_inv (fun s e h => rxInv_step e h) (fun s e h => rxExits_of_inv e h) hinit
  · exact allSteps_iff (fun s e h _ => rxInv_step e h) (fun s e h => rxLaw_iff e h) hinit

/-- A reset receive side, before `ETH_DMARxDescChainInit`. -/
def rxReset : EthRx where
  desc _ := ⟨0, 0, 0, 0⟩
  dmaRxDescToGet := 0
  rxBuff _ := 0
  dmaCursor := 0
  rbus := false
  input := []

/-- One error frame (`ES`, `FS`, `LS`, 64 bytes) and one interrupt: the handler returns with the
completed descriptor still at the head. -/
theorem rxRun_error_frame_wedges :
    ¬ AllSteps rxStep RxLaw (ethDmaRxDescChainInit ethRxBufNb rxReset)
      [.dma 0x00408300#32 [], .irq fun _ _ => none] := by
  rintro ⟨-, ⟨hhead, -⟩, -⟩
  revert hhead
  decide

end Stm32F407.Eth
