import Stm32F407.Eth.RxSystem
import Mathlib.Data.Prod.Lex

/-!
# Frames through the receive ring

What the invariant of `Eth/RxSystem.lean` says about the frames, over every interleaving of the DMA
and the handler's steps.

* `RxDelivers`: what is passed to `netif->input` and which descriptors are handed back, after every
  event.
* `sysCpu_work`: every step of the handler brings it nearer to the end of its loop, in the order of
  the frames left to hand back, the place in the round and the copies left to make.
* `rxSystem_delivers`: every event of every run meets `RxDelivers`, and from every state of every run
  the handler comes back with every stored frame passed on or dropped (`RxDone`).
* `handler_alone`: without a DMA step in between, the program is `ethIrqHandler`.
-/

namespace Stm32F407.Eth

open Stm32F407.Lib

/-! ## Runs -/

/-- What holds after an event. A frame of the DMA is stored iff the descriptor at its cursor is its
own, and nothing else stores a frame. The chains passed to `netif->input` are the stored frames in
arrival order, less those whose allocation failed and the one in hand, and the descriptors handed
back are those of the stored frames, in order. Between two rounds nothing is in hand; and the handler
leaves only when every stored frame has had its turn. A frame's turn is the answer of `pbuf_alloc` to
its length, and a descriptor is handed back when its `OWN` bit is set. -/
structure RxDelivers (s : RxSys) (e : SysEvent) : Prop where
  stored : ∀ fr, e = .dma fr → (sysStep s e).arrived =
    if owned (s.rx.desc s.rx.dmaCursor) then s.arrived ++ [⟨s.rx.dmaCursor, fr⟩] else s.arrived
  others : (∀ fr, e ≠ .dma fr) → (sysStep s e).arrived = s.arrived
  order : (sysStep s e).rx.input.map List.flatten <+:
    delivered (sysStep s e).arrived (sysStep s e).outcomes
  handedBack : (sysStep s e).given <+: (sysStep s e).arrived.map Arrival.slot
  round : (sysStep s e).pc = .guard ∨ (sysStep s e).pc = .idle →
    (sysStep s e).rx.input.map List.flatten =
      delivered (sysStep s e).arrived (sysStep s e).outcomes ∧
    (sysStep s e).given = ((sysStep s e).arrived.map Arrival.slot).take
      (sysStep s e).outcomes.length
  turns : (sysStep s e).outcomes.length ≤ (sysStep s e).arrived.length
  exit : s.pc = .guard → (sysStep s e).pc = .idle →
    (sysStep s e).outcomes.length = (sysStep s e).arrived.length
  asked : (sysStep s e).outcomes = s.outcomes ∨
    ∃ A a, e = .cpu A ∧ s.arrived[s.outcomes.length]? = some a ∧
      (sysStep s e).outcomes = s.outcomes ++ [(A.answer a.frame.payload.length).isSome]
  owns : ∀ d, owned (s.rx.desc d) = false →
    (owned ((sysStep s e).rx.desc d) = true ↔ (sysStep s e).given = s.given ++ [d])

theorem sysCpu_arrived (A : PbufAlloc) (s : RxSys) : (sysCpu A s).arrived = s.arrived := by
  unfold sysCpu
  split <;> first | rfl | (split <;> rfl)

/-- Only the DMA stores frames. -/
theorem sysStep_arrived {s : RxSys} {e : SysEvent} (he : ∀ fr, e ≠ .dma fr) :
    (sysStep s e).arrived = s.arrived := by
  cases e with
  | dma fr => exact absurd rfl (he fr)
  | cpu A => exact sysCpu_arrived A s
  | irq =>
    simp only [sysStep]
    split <;> rfl

/-- Between two rounds every frame handed back has been passed on or dropped. -/
theorem sysInv_round {s : RxSys} (h : SysInv s) (hpc : s.pc = .guard ∨ s.pc = .idle) :
    s.rx.input.map List.flatten = delivered s.arrived s.outcomes ∧
      s.given = (s.arrived.map Arrival.slot).take s.outcomes.length := by
  obtain ⟨old, q, head, harr, hgiven, -, hprog⟩ := h
  have hdone : s.outcomes.length = old.length ∧
      s.rx.input.map List.flatten = delivered old s.outcomes := by
    rcases hpc with hpc | hpc
    · rw [hpc] at hprog
      exact hprog.2
    · rw [hpc] at hprog
      exact hprog.2
  obtain ⟨hlen, hin⟩ := hdone
  constructor
  · rw [harr, delivered_append_left hlen, hin]
  · rw [harr, hgiven, hlen, List.map_append, List.take_left' (List.length_map _)]

/-- At every point what was passed on is a prefix of what should be, and no frame has had two turns
at `pbuf_alloc`. -/
theorem sysInv_order {s : RxSys} (h : SysInv s) :
    s.rx.input.map List.flatten <+: delivered s.arrived s.outcomes ∧
      s.outcomes.length ≤ s.arrived.length := by
  obtain ⟨old, q, head, harr, -, -, hprog⟩ := h
  rw [harr]
  -- outside the middle of a round the frames that had their turn are the old ones
  have hdone : ∀ rest, s.outcomes.length = old.length →
      s.rx.input.map List.flatten ++ rest = delivered old s.outcomes →
      s.rx.input.map List.flatten <+: delivered (old ++ q) s.outcomes ∧
        s.outcomes.length ≤ (old ++ q).length := by
    intro rest hlen hin
    rw [delivered_append_left hlen]
    exact ⟨⟨rest, hin⟩, by simp [hlen]⟩
  -- in the middle, the frame in hand has had its turn too
  have hhand : ∀ a q' os o, q = a :: q' → s.outcomes = os ++ [o] → os.length = old.length →
      s.rx.input.map List.flatten = delivered old os →
      s.rx.input.map List.flatten <+: delivered (old ++ q) s.outcomes ∧
        s.outcomes.length ≤ (old ++ q).length := by
    intro a q' os o hq hout hlen hin
    rw [hq, hout, List.append_cons, delivered_append_left (by simp [hlen]),
      delivered_append_singleton hlen, hin]
    exact ⟨List.prefix_append _ _, by simp [hlen]⟩
  cases hpc : s.pc with
  | idle =>
    rw [hpc] at hprog
    exact hdone [] hprog.2.1 (by rw [List.append_nil, hprog.2.2])
  | guard =>
    rw [hpc] at hprog
    exact hdone [] hprog.2.1 (by rw [List.append_nil, hprog.2.2])
  | packet =>
    rw [hpc] at hprog
    exact hdone [] hprog.2.1 (by rw [List.append_nil, hprog.2.2.1])
  | alloc frame =>
    rw [hpc] at hprog
    obtain ⟨a, q', -, -, -, hlen, hin⟩ := hprog
    exact hdone [] hlen (by rw [List.append_nil, hin])
  | copy frame l lens p =>
    rw [hpc] at hprog
    obtain ⟨a, q', os, hq, -, -, hout, hlen, hin, -⟩ := hprog
    exact hhand a q' os _ hq hout hlen hin
  | give frame p =>
    rw [hpc] at hprog
    obtain ⟨a, q', os, hq, -, -, hout, hlen, hin, -⟩ := hprog
    exact hhand a q' os _ hq hout hlen hin
  | resume p =>
    rw [hpc] at hprog
    exact hdone _ hprog.2.1 hprog.2.2
  | input p =>
    rw [hpc] at hprog
    exact hdone _ hprog.2.1 hprog.2.2

/-- The handler is back from its loop: every stored frame has been passed on or dropped, every
descriptor handed back. -/
structure RxDone (arrived : List Arrival) (s : RxSys) : Prop where
  idle : s.pc = .idle
  stored : s.arrived = arrived
  turns : s.outcomes.length = arrived.length
  passedOn : s.rx.input.map List.flatten = delivered arrived s.outcomes
  handedBack : s.given = arrived.map Arrival.slot
  owns : ∀ d, d < ethRxBufNb → owned (s.rx.desc d) = true

/-- The handler leaves its loop only when it is done. -/
theorem rxDone_of_guard {s : RxSys} (h : SysInv s) (hpc : s.pc = .guard) (A : PbufAlloc)
    (hidle : (sysCpu A s).pc = .idle) : RxDone s.arrived (sysCpu A s) := by
  obtain ⟨rx, pc, arrived, outcomes, given⟩ := s
  obtain rfl : pc = .guard := hpc
  obtain ⟨old, q, head, rfl, rfl, hring, hget, hlen, hin⟩ := h
  have hguard := hring.guard_iff
  simp only at hget
  rw [← hget] at hguard
  have hq : q = [] := by
    by_contra hne
    simp only [sysCpu, if_pos (hguard.mpr hne)] at hidle
    cases hidle
  subst hq
  have hrep := hring.rep
  rw [List.append_nil]
  refine ⟨hidle, rfl, hlen, hin, rfl, fun d hd => ?_⟩
  cases ho : owned (rx.desc d) with
  | true => exact ho
  | false =>
    have hbusy := (hrep.busy_iff hd).mp (by rw [ho]; rfl)
    exact absurd hbusy (Nat.not_lt_zero _)

/-- So the handler leaves only when every frame has had its turn. -/
theorem sysInv_exit {s : RxSys} (e : SysEvent) (h : SysInv s) (hpc : s.pc = .guard)
    (hpc' : (sysStep s e).pc = .idle) :
    (sysStep s e).outcomes.length = (sysStep s e).arrived.length := by
  cases e with
  | dma fr =>
    rw [show (sysStep s (.dma fr)).pc = s.pc from rfl, hpc] at hpc'
    cases hpc'
  | irq =>
    simp only [sysStep, hpc] at hpc'
    cases hpc'
  | cpu A =>
    have hdone := rxDone_of_guard h hpc A hpc'
    exact hdone.turns.trans (congrArg List.length hdone.stored.symm)

/-- The bytes a frame's chain is asked to hold. -/
theorem payload_length (fr : GoodFrame) : fr.payload.length = fr.data.length - 4 := by
  rw [GoodFrame.payload, List.length_take]
  omega

/-- `pbuf_alloc` is asked once for each frame, in turn. -/
theorem sysInv_asked {s : RxSys} (e : SysEvent) (h : SysInv s) :
    (sysStep s e).outcomes = s.outcomes ∨
      ∃ A a, e = .cpu A ∧ s.arrived[s.outcomes.length]? = some a ∧
        (sysStep s e).outcomes = s.outcomes ++ [(A.answer a.frame.payload.length).isSome] := by
  obtain ⟨rx, pc, arrived, outcomes, given⟩ := s
  cases e with
  | dma fr => exact Or.inl rfl
  | irq => cases pc <;> exact Or.inl rfl
  | cpu A =>
    cases pc with
    | alloc frame =>
      obtain ⟨old, q, head, rfl, -, -, a, q', rfl, rfl, -, hlen, -⟩ := h
      simp only at hlen
      refine Or.inr ⟨A, a, rfl, ?_, ?_⟩
      · simp [hlen]
      · simp only [sysStep, sysCpu, frameOf_length, payload_length]
        cases A.answer (a.frame.data.length - 4) <;> rfl
    | copy frame l lens p => cases lens <;> exact Or.inl rfl
    | give frame p =>
      simp only [sysStep, sysCpu]
      cases frame.descriptor <;> exact Or.inl rfl
    | input p => cases p <;> exact Or.inl rfl
    | _ => exact Or.inl rfl

/-- A frame of the DMA sets no `OWN` bit. -/
theorem owned_dma (fr : GoodFrame) {rx : EthRx} {d : Nat} (hd : owned (rx.desc d) = false) :
    owned ((dmaRxStep fr.status fr.data rx).desc d) = false := by
  unfold dmaRxStep
  simp only
  split
  · by_cases he : d = rx.dmaCursor
    · simp [he]
    · simpa [he] using hd
  · exact hd

/-- `ETH_Rx_Packet` writes no descriptor. -/
theorem ethRxPacket_desc (rx : EthRx) : (ethRxPacket rx).2.desc = rx.desc := by
  unfold ethRxPacket
  simp only
  split <;> rfl

/-- A descriptor's `OWN` bit is set by the hand-back and by nothing else. -/
theorem sysInv_owns {s : RxSys} (e : SysEvent) (h : SysInv s) {d : Nat}
    (hd : owned (s.rx.desc d) = false) :
    owned ((sysStep s e).rx.desc d) = true ↔ (sysStep s e).given = s.given ++ [d] := by
  -- a step that writes neither the descriptors nor the record
  have hquiet : (sysStep s e).rx.desc = s.rx.desc → (sysStep s e).given = s.given →
      (owned ((sysStep s e).rx.desc d) = true ↔ (sysStep s e).given = s.given ++ [d]) := by
    intro hdesc hgiven
    rw [hdesc, hgiven, hd]
    simp
  obtain ⟨rx, pc, arrived, outcomes, given⟩ := s
  cases e with
  | dma fr =>
    have howned : owned ((sysStep ⟨rx, pc, arrived, outcomes, given⟩ (.dma fr)).rx.desc d) = false :=
      owned_dma fr hd
    rw [howned]
    simp [sysStep, sysDma]
  | irq => cases pc <;> exact hquiet rfl rfl
  | cpu A =>
    cases pc with
    | alloc frame =>
      refine hquiet ?_ ?_
      all_goals
        simp only [sysStep, sysCpu]
        cases A.answer (frame.length.toNat % 2 ^ 16) <;> rfl
    | copy frame l lens p => cases lens <;> exact hquiet rfl rfl
    | give frame p =>
      obtain ⟨old, q, head, -, -, hring, a, q', os, rfl, rfl, -⟩ := h
      simp only [sysStep, sysCpu, frameOf, List.append_cancel_left_eq, List.cons.injEq, and_true]
      by_cases he : d = a.slot
      · simp [he, owned]
        decide
      · simp [he, hd, Ne.symm he]
    | input p => cases p <;> exact hquiet rfl rfl
    | idle => exact hquiet rfl rfl
    | guard => exact hquiet rfl rfl
    | packet => exact hquiet (ethRxPacket_desc rx) rfl
    | resume p => exact hquiet rfl rfl

/-! ## The handler gets through -/

/-- The place in the round, counted backwards from the hand-back of a frame to the steps after the
hand-back of the frame before it. -/
def Pc.stage : Pc → Nat
  | .idle => 0
  | .give _ _ => 1
  | .copy _ _ _ _ => 2
  | .alloc _ => 3
  | .packet => 4
  | .guard => 5
  | .input _ => 6
  | .resume _ => 7

/-- The copies still to be made. -/
def Pc.copies : Pc → Nat
  | .copy _ _ lens _ => lens.length
  | _ => 0

/-- The handler's work: the frames not yet handed back, the place in the round, and the copies. -/
def RxSys.work (s : RxSys) : Nat ×ₗ Nat ×ₗ Nat :=
  toLex (s.arrived.length - s.given.length, toLex (s.pc.stage, s.pc.copies))

/-- **Every step of the handler** makes its work less. -/
theorem sysCpu_work {s : RxSys} (h : SysInv s) (hpc : s.pc ≠ .idle) (A : PbufAlloc) :
    (sysCpu A s).work < s.work := by
  obtain ⟨rx, pc, arrived, outcomes, given⟩ := s
  -- but for the copies and the hand-back, a step goes on to the next place in the round
  have hstage : ∀ s' : RxSys, s'.arrived = arrived → s'.given = given → s'.pc.stage < pc.stage →
      s'.work < (RxSys.mk rx pc arrived outcomes given).work := by
    intro s' harr hgiven hlt
    unfold RxSys.work
    rw [harr, hgiven]
    exact Prod.Lex.toLex_lt_toLex.mpr (Or.inr ⟨rfl, Prod.Lex.toLex_lt_toLex.mpr (Or.inl hlt)⟩)
  cases pc with
  | idle => exact absurd rfl hpc
  | guard =>
    simp only [sysCpu]
    split
    · exact hstage _ rfl rfl (Nat.lt_succ_self 4)
    · exact hstage _ rfl rfl (Nat.succ_pos 4)
  | packet => exact hstage _ rfl rfl (Nat.lt_succ_self 3)
  | alloc frame =>
    simp only [sysCpu]
    split
    · exact hstage _ rfl rfl (Nat.lt_add_of_pos_right (k := 2) (by decide))
    · exact hstage _ rfl rfl (Nat.lt_succ_self 2)
  | copy frame l lens p =>
    cases lens with
    | nil => exact hstage _ rfl rfl (Nat.lt_succ_self 1)
    | cons len lens =>
      exact Prod.Lex.toLex_lt_toLex.mpr (Or.inr ⟨rfl, Prod.Lex.toLex_lt_toLex.mpr
        (Or.inr ⟨rfl, Nat.lt_succ_self lens.length⟩)⟩)
  | give frame p =>
    obtain ⟨old, q, head, rfl, rfl, -, a, q', os, rfl, rfl, -⟩ := h
    refine Prod.Lex.toLex_lt_toLex.mpr (Or.inl ?_)
    simp only [sysCpu, frameOf, List.length_append, List.length_map, List.length_cons,
      List.length_nil]
    omega
  | resume p => exact hstage _ rfl rfl (Nat.lt_succ_self 6)
  | input p => cases p <;> exact hstage _ rfl rfl (Nat.lt_succ_self 5)

/-- The steps of the handler by itself, `pbuf_alloc` answering as it likes at each. -/
def handlerSteps (As : Nat → PbufAlloc) (n : Nat) : List SysEvent :=
  (List.range n).map fun k => .cpu (As k)

/-- Nothing but the condition of the `while` leads out. -/
theorem sysCpu_idle {A : PbufAlloc} {s : RxSys} (hpc : s.pc ≠ .idle)
    (hidle : (sysCpu A s).pc = .idle) : s.pc = .guard := by
  obtain ⟨rx, pc, arrived, outcomes, given⟩ := s
  cases pc with
  | idle => exact absurd rfl hpc
  | guard => rfl
  | packet => cases hidle
  | alloc frame =>
    simp only [sysCpu] at hidle
    split at hidle <;> cases hidle
  | copy frame l lens p => cases lens <;> cases hidle
  | give frame p =>
    simp only [sysCpu] at hidle
    split at hidle <;> cases hidle
  | resume p => cases hidle
  | input p => cases p <;> cases hidle

/-- **The handler gets through**, wherever in its loop it stands. -/
theorem handler_done {s : RxSys} (h : SysInv s) (hpc : s.pc ≠ .idle) (As : Nat → PbufAlloc) :
    ∃ n, RxDone s.arrived (run sysStep s (handlerSteps As n)) := by
  refine exists_run_of_lt (μ := RxSys.work)
    (P := fun t => SysInv t ∧ t.pc ≠ .idle ∧ t.arrived = s.arrived)
    (K := fun e => ∃ A, e = .cpu A) ?_ (fun k => ⟨As k, rfl⟩) ⟨h, hpc, rfl⟩
  rintro t e ⟨ht, htpc, harr⟩ ⟨A, rfl⟩
  by_cases hidle : (sysCpu A t).pc = .idle
  · left
    rw [← harr]
    exact rxDone_of_guard ht (sysCpu_idle htpc hidle) A hidle
  · exact Or.inr ⟨⟨sysInv_cpu ht A, hidle, (sysCpu_arrived A t).trans harr⟩, sysCpu_work ht htpc A⟩

/-- **Delivery.** From `ETH_DMARxDescChainInit` on, whatever the order of the frames the DMA stores,
the interrupts and the handler's own steps, and whatever `pbuf_alloc` answers: the stack gets the
stored frames in arrival order and byte by byte without their CRC, less those whose allocation
failed, and each frame's descriptor is handed back once, whether or not the allocation failed. And
from every state of every run the handler, once it is left to itself, comes back with every stored
frame passed on or dropped and every descriptor handed back. -/
theorem rxSystem_delivers (s₀ : EthRx) (es : List SysEvent) :
    AllSteps sysStep RxDelivers (sysInit s₀) es ∧
      ∀ As : Nat → PbufAlloc, ∃ n, RxDone (run sysStep (sysInit s₀) es).arrived
        (run sysStep (run sysStep (sysInit s₀) es) (.irq :: handlerSteps As n)) := by
  constructor
  · refine allSteps_of_inv (fun s e h => sysInv_step e h) (fun s e h => ?_) (sysInv_init s₀)
    have hnext := sysInv_step e h
    refine ⟨fun fr he => he ▸ rfl, sysStep_arrived, (sysInv_order hnext).1, ?_,
      sysInv_round hnext, (sysInv_order hnext).2, sysInv_exit e h, sysInv_asked e h,
      fun d hd => sysInv_owns e h hd⟩
    obtain ⟨old, q, head, harr, hgiven, -⟩ := hnext
    rw [harr, hgiven, List.map_append]
    exact List.prefix_append _ _
  · intro As
    have hinv : SysInv (run sysStep (sysInit s₀) es) :=
      run_of_inv (fun s e h => sysInv_step e h) (sysInv_init s₀)
    generalize run sysStep (sysInit s₀) es = s at hinv
    -- the interrupt calls the handler, if it is not at work
    have hirq : (sysStep s .irq).pc ≠ .idle := by
      simp only [sysStep]
      split
      · exact nofun
      · assumption
    obtain ⟨n, hn⟩ := handler_done (sysInv_step .irq hinv) hirq As
    rw [sysStep_arrived fun fr he => by cases he] at hn
    exact ⟨n, hn⟩

/-- A frame of one byte and its CRC. -/
def oneByteFrame : GoodFrame where
  status := rxDescFs ||| rxDescLs ||| 5#32 <<< 16
  data := [1, 0, 0, 0, 0]
  noError := by decide
  first := by decide
  last := by decide
  length_eq := by decide
  crc_lt := by decide
  fits := by decide

/-- A frame of two bytes and its CRC. -/
def twoByteFrame : GoodFrame where
  status := rxDescFs ||| rxDescLs ||| 6#32 <<< 16
  data := [6, 7, 0, 0, 0, 0]
  noError := by decide
  first := by decide
  last := by decide
  length_eq := by decide
  crc_lt := by decide
  fits := by decide

/-- The pool is empty. -/
def noPbuf : PbufAlloc := ⟨fun _ => none, nofun⟩

/-- The pool gives a chain of two, with one byte in the first. -/
def twoPbufs : PbufAlloc where
  answer len := if len = 0 then some [] else some [1, len - 1]
  sum_eq len lens h := by
    split at h <;> cases h
    · exact (by assumption : len = 0).symm
    · simp only [List.sum_cons, List.sum_nil]
      omega

/-- The second frame arrives while the handler is at work on the first, for which there is no
`pbuf`. -/
def firstDropped : List SysEvent :=
  [.dma oneByteFrame, .irq, .cpu noPbuf, .cpu noPbuf, .dma twoByteFrame, .cpu noPbuf, .cpu noPbuf] ++
    List.replicate 12 (.cpu twoPbufs)

/-- The run delivers the second frame in two pieces and hands both descriptors back; and when the
second frame has just arrived, the handler by itself gets through with both. -/
theorem rxSystem_delivers_firstDropped :
    AllSteps sysStep RxDelivers (sysInit rxReset) firstDropped ∧
    (run sysStep (sysInit rxReset) firstDropped).rx.input = [[[6], [7]]] ∧
    (run sysStep (sysInit rxReset) firstDropped).outcomes = [false, true] ∧
    (run sysStep (sysInit rxReset) firstDropped).given = [0, 1] ∧
    ∃ n, RxDone [⟨0, oneByteFrame⟩, ⟨1, twoByteFrame⟩]
      (run sysStep (run sysStep (sysInit rxReset) (firstDropped.take 5))
        (.irq :: handlerSteps (fun _ => twoPbufs) n)) :=
  ⟨(rxSystem_delivers rxReset firstDropped).1, by decide, by decide, by decide,
    (rxSystem_delivers rxReset (firstDropped.take 5)).2 fun _ => twoPbufs⟩

/-! ## The handler without a DMA step in between -/

/-- The copy loop, run to its end. -/
theorem run_copy (A : PbufAlloc) (s : RxSys) (frame : FrameType) (l : Nat) (lens : List Nat)
    (p : List (List UInt8)) :
    run sysStep { s with pc := .copy frame l lens p } (List.replicate (lens.length + 1) (.cpu A)) =
      { s with
        pc := .give frame (some (p ++ copyFromBuffer s.rx.rxBuff (frame.buffer + l) lens)) } := by
  induction lens generalizing l p with
  | nil => simp [sysStep, sysCpu, copyFromBuffer, run]
  | cons len lens ih =>
    rw [List.length_cons, List.replicate_succ, run_cons]
    simp only [sysStep, sysCpu]
    rw [ih, copyFromBuffer, List.append_assoc, Nat.add_assoc]
    rfl

/-- From `pbuf_alloc` to the hand-back. -/
theorem run_alloc (A : PbufAlloc) (s : RxSys) (frame : FrameType) :
    ∃ k os, run sysStep { s with pc := .alloc frame } (List.replicate k (.cpu A)) =
      { s with
        outcomes := os
        pc := .give frame ((A.answer (frame.length.toNat % 2 ^ 16)).map
          (copyFromBuffer s.rx.rxBuff frame.buffer)) } := by
  cases hans : A.answer (frame.length.toNat % 2 ^ 16) with
  | none => exact ⟨1, _, by simp only [List.replicate_one, run_cons, sysStep, sysCpu, hans]; rfl⟩
  | some lens =>
    refine ⟨lens.length + 1 + 1, s.outcomes ++ [true], ?_⟩
    rw [List.replicate_succ, run_cons]
    simp only [sysStep, sysCpu, hans]
    rw [run_copy A { s with outcomes := s.outcomes ++ [true] }]
    rfl

/-- One round by itself is `ethernetif_input`. -/
theorem run_round (A : PbufAlloc) (s : RxSys) (hpc : s.pc = .guard)
    (hg : ethGetRxPktSize (s.rx.desc s.rx.dmaRxDescToGet) ≠ 0) :
    ∃ k, (run sysStep s (List.replicate k (.cpu A))).rx = ethernetifInput A.answer s.rx ∧
      (run sysStep s (List.replicate k (.cpu A))).pc = .guard := by
  obtain ⟨rx, pc, arrived, outcomes, given⟩ := s
  obtain rfl : pc = .guard := hpc
  have hown : (rx.desc rx.dmaRxDescToGet).status &&& descOwn = 0 := by
    have := ((ethGetRxPktSize_ne_zero_iff _).mp hg).1
    simpa [owned] using this
  have hdesc : (ethRxPacket rx).1.descriptor = some rx.dmaRxDescToGet := by
    simp [ethRxPacket, hown]
  obtain ⟨k, os, halloc⟩ := run_alloc A ⟨(ethRxPacket rx).2, .guard, arrived, outcomes, given⟩
    (ethRxPacket rx).1
  refine ⟨2 + (k + 3), ?_⟩
  have hfront : run sysStep ⟨rx, .guard, arrived, outcomes, given⟩
      (List.replicate 2 (.cpu A)) =
      ⟨(ethRxPacket rx).2, .alloc (ethRxPacket rx).1, arrived, outcomes, given⟩ := by
    simp only [List.replicate_succ, List.replicate_zero, run_cons, run_nil, sysStep, sysCpu,
      if_pos hg]
  rw [List.replicate_add, run_append, hfront, List.replicate_add, run_append, halloc]
  simp only [List.replicate_succ, List.replicate_zero, run_cons, run_nil, sysStep, sysCpu, hdesc]
  unfold ethernetifInput lowLevelInput
  simp only [hdesc]
  cases A.answer ((ethRxPacket rx).1.length.toNat % 2 ^ 16) with
  | none => exact ⟨rfl, rfl⟩
  | some lens => exact ⟨rfl, rfl⟩

/-- **The program is the handler**: with no DMA step in between, its steps from the condition of the
`while` to the way out do to the ring what `ethIrqLoop` does. -/
theorem handler_alone (allocs : Nat → PbufAlloc) {n : Nat} {q : List (BitVec 32)} (fuel k : Nat)
    (s : RxSys) (hpc : s.pc = .guard) (h : RxRing n s.rx q) (hfuel : q.length ≤ fuel) :
    ∃ As : List PbufAlloc,
      (run sysStep s (As.map .cpu)).rx =
        ethIrqLoop (fun k => (allocs k).answer) fuel k s.rx ∧
      (run sysStep s (As.map .cpu)).pc = .idle := by
  induction fuel generalizing s q k with
  | zero =>
    obtain rfl : q = [] := List.length_eq_zero_iff.mp (Nat.le_zero.mp hfuel)
    have hg : ¬ ethGetRxPktSize (s.rx.desc s.rx.dmaRxDescToGet) ≠ 0 := fun hg => by
      obtain ⟨st, q', heq, -⟩ := (guard_iff h).mp hg
      cases heq
    refine ⟨[allocs 0], ?_⟩
    simp only [List.map_cons, List.map_nil, run_cons, run_nil, sysStep, sysCpu, hpc, if_neg hg,
      ethIrqLoop, and_self]
  | succ fuel ih =>
    rw [ethIrqLoop]
    split
    · rename_i hg
      obtain ⟨st, q', rfl, -⟩ := (guard_iff h).mp hg
      obtain ⟨m, hrx, hpc'⟩ := run_round (allocs k) s hpc hg
      have hring := rxRing_input h (allocs k).answer
      rw [← hrx] at hring
      obtain ⟨As, hrun⟩ := ih (k + 1) _ hpc' hring (Nat.le_of_succ_le_succ hfuel)
      refine ⟨List.replicate m (allocs k) ++ As, ?_⟩
      rw [List.map_append, run_append, List.map_replicate, ← hrx]
      exact hrun
    · rename_i hg
      refine ⟨[allocs 0], ?_⟩
      simp only [List.map_cons, List.map_nil, run_cons, run_nil, sysStep, sysCpu, hpc, if_neg hg,
        and_self]

end Stm32F407.Eth
