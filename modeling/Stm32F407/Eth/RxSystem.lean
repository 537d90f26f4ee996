import Stm32F407.Eth.Rx

/-!
# The receive ring with the DMA running beside the handler

`Eth/Rx.lean` runs `ETH_IRQHandler` in one go. Here the handler is a program with a counter, and the
DMA may complete a descriptor between any two of its steps: after `ETH_Rx_Packet` has moved
`DMARxDescToGet` on, between the copies into two `pbuf`s, before and after the descriptor is handed
back. The frames the DMA stores are whole ones (`GoodFrame`).

* `FrameRing`: the ring holds a queue of frames, each with the descriptor it was stored in. The
  queue's head is the descriptor the handler is at work on, which lags behind `DMARxDescToGet`.
* `Progress`: what the handler's variables say about the frame in its hands, one case per counter.
* `sysInv_step`: every step of the DMA, of the interrupt and of the handler keeps both.
-/

namespace Stm32F407.Eth

open Stm32F407.Lib

/-! ## The system -/

/-- A complete frame in one descriptor: its status has `ES` clear, `FS` and `LS` set and the
frame's length in `FL`, which counts the four bytes of the CRC and fits the buffer. -/
structure GoodFrame where
  status : BitVec 32
  data : List UInt8
  noError : status &&& rxDescEs = 0
  first : status &&& rxDescFs ≠ 0
  last : status &&& rxDescLs ≠ 0
  length_eq : ((status &&& rxDescFl) >>> 16).toNat = data.length
  crc_lt : 4 < data.length
  fits : data.length ≤ ethBufSize

/-- The frame without its CRC. -/
def GoodFrame.payload (fr : GoodFrame) : List UInt8 := fr.data.take (fr.data.length - 4)

/-- What `pbuf_alloc(PBUF_RAW, len, PBUF_POOL)` may answer: `NULL`, or a chain whose `len` fields
sum to the requested length. -/
structure PbufAlloc where
  answer : Nat → Option (List Nat)
  sum_eq : ∀ len lens, answer len = some lens → lens.sum = len

/-- Where `ETH_IRQHandler` stands, with the variables of `low_level_input` it has set by then. -/
inductive Pc where
  /-- Outside the handler. -/
  | idle
  /-- Before the condition of the `while`. -/
  | guard
  /-- Before `ETH_Rx_Packet`. -/
  | packet
  /-- Before `pbuf_alloc`. -/
  | alloc (frame : FrameType)
  /-- Before the copy into the next `pbuf`; `p` is the part of the chain already filled. -/
  | copy (frame : FrameType) (l : Nat) (lens : List Nat) (p : List (List UInt8))
  /-- Before `frame.descriptor->Status = ETH_DMARxDesc_OWN`. -/
  | give (frame : FrameType) (p : Option (List (List UInt8)))
  /-- Before the test of `RBUS`. -/
  | resume (p : Option (List (List UInt8)))
  /-- Back in `ethernetif_input`, before the test of `p`. -/
  | input (p : Option (List (List UInt8)))

/-- A frame the DMA stored, with the descriptor it took. -/
structure Arrival where
  slot : Nat
  frame : GoodFrame

/-- The receive side with the handler's counter, and a record of the frames stored, of whether
`pbuf_alloc` succeeded for each frame in turn, and of the descriptors handed back. -/
structure RxSys where
  rx : EthRx
  pc : Pc
  arrived : List Arrival
  outcomes : List Bool
  given : List Nat

/-- What happens next: the DMA has received a frame, the interrupt is taken, or the handler goes on
(with `pbuf_alloc` answering as it likes). -/
inductive SysEvent where
  | dma (fr : GoodFrame)
  | irq
  | cpu (pbufAlloc : PbufAlloc)

/-- The DMA stores the frame, or finds the descriptor at its cursor not its own. -/
def sysDma (fr : GoodFrame) (s : RxSys) : RxSys :=
  { s with
    rx := dmaRxStep fr.status fr.data s.rx
    arrived := if owned (s.rx.desc s.rx.dmaCursor) then s.arrived ++ [⟨s.rx.dmaCursor, fr⟩]
      else s.arrived }

/-- One step of the handler. -/
def sysCpu (pbufAlloc : PbufAlloc) (s : RxSys) : RxSys :=
  match s.pc with
  | .idle => s
  | .guard =>
    { s with pc := if ethGetRxPktSize (s.rx.desc s.rx.dmaRxDescToGet) ≠ 0 then .packet else .idle }
  | .packet =>
    let r := ethRxPacket s.rx
    { s with rx := r.2, pc := .alloc r.1 }
  | .alloc frame =>
    match pbufAlloc.answer (frame.length.toNat % 2 ^ 16) with
    | none => { s with pc := .give frame none, outcomes := s.outcomes ++ [false] }
    | some lens => { s with pc := .copy frame 0 lens [], outcomes := s.outcomes ++ [true] }
  | .copy frame _ [] p => { s with pc := .give frame (some p) }
  | .copy frame l (len :: lens) p =>
    { s with pc := .copy frame (l + len) lens (p ++ [readRun s.rx.rxBuff (frame.buffer + l) len]) }
  | .give frame p =>
    match frame.descriptor with
    | none => { s with pc := .resume p }
    | some d =>
      { s with
        rx := { s.rx with desc := setDesc s.rx.desc d { s.rx.desc d with status := descOwn } }
        given := s.given ++ [d]
        pc := .resume p }
  | .resume p => { s with rx := { s.rx with rbus := false }, pc := .input p }
  | .input none => { s with pc := .guard }
  | .input (some p) => { s with rx := { s.rx with input := s.rx.input ++ [p] }, pc := .guard }

/-- One event. -/
def sysStep (s : RxSys) : SysEvent → RxSys
  | .dma fr => sysDma fr s
  | .irq => match s.pc with
    | .idle => { s with pc := .guard }
    | _ => s
  | .cpu pbufAlloc => sysCpu pbufAlloc s

/-- The system right after `ETH_DMARxDescChainInit`. -/
def sysInit (s₀ : EthRx) : RxSys where
  rx := { ethDmaRxDescChainInit ethRxBufNb s₀ with input := [] }
  pc := .idle
  arrived := []
  outcomes := []
  given := []

/-- What the stack should have been given: the frames in arrival order, without those whose
`pbuf_alloc` failed, each without its CRC. -/
def delivered (arrived : List Arrival) (outcomes : List Bool) : List (List UInt8) :=
  ((arrived.zip outcomes).filter (·.2)).map fun x => x.1.frame.payload

theorem delivered_append_singleton {as : List Arrival} {os : List Bool}
    (h : os.length = as.length) (a : Arrival) (o : Bool) :
    delivered (as ++ [a]) (os ++ [o]) =
      delivered as os ++ if o then [a.frame.payload] else [] := by
  unfold delivered
  rw [List.zip_append h.symm, List.filter_append, List.map_append]
  cases o <;> rfl

/-- Frames whose turn at `pbuf_alloc` has not come do not count. -/
theorem delivered_append_left {as : List Arrival} {os : List Bool} (h : os.length = as.length)
    (bs : List Arrival) : delivered (as ++ bs) os = delivered as os := by
  unfold delivered
  rw [← List.append_nil os, List.zip_append h.symm, List.zip_nil_right, List.append_nil,
    List.append_nil]

/-! ## The ring as a queue of frames -/

/-- A descriptor with its number, its status and the frame its status announces. -/
def slotView (s : EthRx) (i : Nat) : Nat × BitVec 32 × List UInt8 :=
  (i, (s.desc i).status,
    readRun s.rxBuff (s.desc i).buffer1Addr (((s.desc i).status &&& rxDescFl) >>> 16).toNat)

/-- What the DMA leaves behind of a frame. -/
def Arrival.view (a : Arrival) : Nat × BitVec 32 × List UInt8 :=
  (a.slot, a.frame.status &&& ~~~descOwn, a.frame.data)

/-- From `head` on the ring holds the frames `q`, each in the descriptor it arrived in. -/
structure FrameRing (s : EthRx) (head : Nat) (q : List Arrival) : Prop where
  rep : RingRep ethRxBufNb (fun i => !owned (s.desc i)) (slotView s) head s.dmaCursor
    (q.map Arrival.view)
  chain : ∀ i, i < ethRxBufNb → (s.desc i).buffer2NextDescAddr = nextIdx ethRxBufNb i
  place : ∀ i, i < ethRxBufNb → (s.desc i).buffer1Addr = i * ethBufSize

variable {s : EthRx} {head : Nat} {q : List Arrival} {a : Arrival}

/-- Clearing `OWN` leaves the other fields alone. -/
theorem status_and {m : BitVec 32} (hm : ~~~descOwn &&& m = m) (x : BitVec 32) :
    x &&& ~~~descOwn &&& m = x &&& m := by
  rw [BitVec.and_assoc, hm]

/-- Right after `ETH_DMARxDescChainInit` the ring is empty. -/
theorem frameRing_init (s : EthRx) :
    FrameRing { ethDmaRxDescChainInit ethRxBufNb s with input := [] } 0 [] where
  rep := RingRep.empty (by decide) fun i hi => by
    simp only [ethDmaRxDescChainInit, if_pos hi]
    simp [owned, descOwn]
  chain := (rxRing_init (by decide) s).chain
  place i hi := by simp only [ethDmaRxDescChainInit, if_pos hi]

/-- The ring is read through its descriptors, the buffers and the cursor of the DMA. -/
theorem FrameRing.congr {s' : EthRx} (h : FrameRing s head q) (hd : s'.desc = s.desc)
    (hb : s'.rxBuff = s.rxBuff) (hc : s'.dmaCursor = s.dmaCursor) : FrameRing s' head q := by
  have hview : slotView s' = slotView s := by
    funext i
    rw [slotView, slotView, hd, hb]
  exact ⟨by rw [hview, hd, hc]; exact h.rep, by rw [hd]; exact h.chain, by rw [hd]; exact h.place⟩

/-- The DMA looks at a descriptor of its own iff the ring is not full. -/
theorem FrameRing.cursor_owned_iff (h : FrameRing s head q) :
    owned (s.desc s.dmaCursor) = true ↔ q.length < ethRxBufNb := by
  have hbusy := h.rep.tail_busy
  have hle := h.rep.len_le
  rw [List.length_map] at hbusy hle
  cases ho : owned (s.desc s.dmaCursor) with
  | true =>
    rw [ho] at hbusy
    simp only [Bool.not_true, Bool.false_eq_true, false_iff] at hbusy
    simp only [true_iff]
    omega
  | false =>
    rw [ho] at hbusy
    simp only [Bool.not_false, true_iff] at hbusy
    simp [hbusy]

/-- A descriptor that holds a frame announces a length that fits its buffer. -/
theorem FrameRing.length_fits (h : FrameRing s head q) {i : Nat} (hi : i < ethRxBufNb)
    (hb : owned (s.desc i) = false) :
    (((s.desc i).status &&& rxDescFl) >>> 16).toNat ≤ ethBufSize := by
  have hall := (h.rep.forall_busy_iff fun v => ((v.2.1 &&& rxDescFl) >>> 16).toNat ≤ ethBufSize).mpr
  refine hall (fun v hv => ?_) i hi (by simp [hb])
  obtain ⟨a, -, rfl⟩ := List.mem_map.mp hv
  show (((a.frame.status &&& ~~~descOwn) &&& rxDescFl) >>> 16).toNat ≤ ethBufSize
  rw [status_and (by decide), a.frame.length_eq]
  exact a.frame.fits

/-- **A frame of the DMA** joins the queue; the frames already there keep their bytes, since the
buffers do not overlap. -/
theorem frameRing_dma (h : FrameRing s head q) (fr : GoodFrame)
    (ho : owned (s.desc s.dmaCursor) = true) :
    FrameRing (dmaRxStep fr.status fr.data s) head (q ++ [⟨s.dmaCursor, fr⟩]) := by
  have hroom := h.cursor_owned_iff.mp ho
  have htail := h.rep.tail_lt
  have htake : fr.data.take ethBufSize = fr.data := List.take_of_length_le fr.fits
  unfold dmaRxStep
  simp only [if_pos ho, htake]
  refine ⟨?_, fun i hi => ?_, fun i hi => ?_⟩
  · show RingRep ethRxBufNb _ _ head (s.desc s.dmaCursor).buffer2NextDescAddr _
    rw [h.chain _ htail, List.map_append]
    refine h.rep.push (by simpa using hroom) (fun i _ => ?_) ?_ fun i hi hne hb => ?_
    · by_cases hi : i = s.dmaCursor <;> simp [hi]
    · simp only [slotView, setDesc_self, Arrival.view]
      rw [status_and (by decide), fr.length_eq, readRun_blit_self]
    · have hbusy : owned (s.desc i) = false := by simpa using hb
      simp only [slotView, setDesc_ne _ _ hne]
      rw [readRun_blit_of_apart]
      have := h.length_fits hi hbusy
      have := fr.fits
      rw [h.place i hi, h.place _ htail]
      -- two different buffers of the same size
      rcases Nat.lt_or_gt_of_ne hne with hlt | hgt
      · left
        calc i * ethBufSize + _ ≤ i * ethBufSize + ethBufSize := by omega
          _ = (i + 1) * ethBufSize := (Nat.succ_mul _ _).symm
          _ ≤ s.dmaCursor * ethBufSize := Nat.mul_le_mul_right _ hlt
      · right
        calc s.dmaCursor * ethBufSize + _ ≤ s.dmaCursor * ethBufSize + ethBufSize := by omega
          _ = (s.dmaCursor + 1) * ethBufSize := (Nat.succ_mul _ _).symm
          _ ≤ i * ethBufSize := Nat.mul_le_mul_right _ hgt
  · by_cases he : i = s.dmaCursor
    · simp [he, h.chain _ htail]
    · simp [he, h.chain i hi]
  · by_cases he : i = s.dmaCursor
    · simp [he, h.place _ htail]
    · simp [he, h.place i hi]

/-- A frame that finds the ring full is not stored. -/
theorem frameRing_dma_full (h : FrameRing s head q) (fr : GoodFrame)
    (ho : owned (s.desc s.dmaCursor) = false) :
    FrameRing (dmaRxStep fr.status fr.data s) head q := by
  unfold dmaRxStep
  simp only [ho]
  exact h.congr rfl rfl rfl

/-- What the handler finds at the head: a completed descriptor with the oldest frame. -/
structure Holds (s : EthRx) (a : Arrival) : Prop where
  status : (s.desc a.slot).status = a.frame.status &&& ~~~descOwn
  next : (s.desc a.slot).buffer2NextDescAddr = nextIdx ethRxBufNb a.slot
  place : (s.desc a.slot).buffer1Addr = a.slot * ethBufSize
  bytes : readRun s.rxBuff (a.slot * ethBufSize) a.frame.data.length = a.frame.data

theorem FrameRing.head_eq (h : FrameRing s head (a :: q)) : head = a.slot :=
  congrArg Prod.fst h.rep.head_slot

theorem FrameRing.holds (h : FrameRing s head (a :: q)) : Holds s a := by
  have hlt := h.rep.head_lt
  have hslot := h.rep.head_slot
  obtain rfl := h.head_eq
  have hst : (s.desc a.slot).status = a.frame.status &&& ~~~descOwn :=
    congrArg (fun v => v.2.1) hslot
  have hby := congrArg (fun v => v.2.2) hslot
  have hfl : ~~~descOwn &&& rxDescFl = rxDescFl := by decide
  simp only [slotView, Arrival.view, hst, status_and hfl, a.frame.length_eq, h.place _ hlt] at hby
  exact ⟨hst, h.chain _ hlt, h.place _ hlt, hby⟩

/-- **Handing back** the descriptor at the head takes its frame off the queue. -/
theorem frameRing_give (h : FrameRing s head (a :: q)) :
    FrameRing { s with desc := setDesc s.desc a.slot { s.desc a.slot with status := descOwn } }
      (nextIdx ethRxBufNb a.slot) q := by
  have hlt := h.rep.head_lt
  obtain rfl := h.head_eq
  refine ⟨?_, fun i hi => ?_, fun i hi => ?_⟩
  · refine h.rep.pop (fun i _ => ?_) fun i _ hne _ => by simp [slotView, hne]
    by_cases hi : i = a.slot <;> simp [hi]
  · by_cases he : i = a.slot
    · simp [he, h.chain _ hlt]
    · simp [he, h.chain i hi]
  · by_cases he : i = a.slot
    · simp [he, h.place _ hlt]
    · simp [he, h.place i hi]

/-! ## One round of the handler -/

/-- What `ETH_Rx_Packet` returns for a stored frame. -/
def frameOf (a : Arrival) : FrameType where
  length := ((a.frame.status &&& rxDescFl) >>> 16) - 4
  buffer := a.slot * ethBufSize
  descriptor := some a.slot

/-- The length `low_level_input` asks `pbuf_alloc` for: `FL - 4`. -/
theorem frameOf_length (a : Arrival) :
    (frameOf a).length.toNat % 2 ^ 16 = a.frame.data.length - 4 := by
  have hlen := a.frame.length_eq
  have hcrc := a.frame.crc_lt
  have hfits : a.frame.data.length ≤ 1524 := a.frame.fits
  have hle : (4 : BitVec 32) ≤ (a.frame.status &&& rxDescFl) >>> 16 := by
    rw [BitVec.le_def, hlen]
    exact Nat.le_of_lt hcrc
  rw [frameOf, BitVec.toNat_sub_of_le hle, hlen]
  show (a.frame.data.length - 4) % 65536 = _
  omega

/-- The guard of the `while` lets a round begin iff a frame waits. -/
theorem FrameRing.guard_iff (h : FrameRing s head q) :
    ethGetRxPktSize (s.desc head) ≠ 0 ↔ q ≠ [] := by
  have hbusy := h.rep.head_busy
  rw [ethGetRxPktSize_ne_zero_iff]
  cases q with
  | nil =>
    simp only [List.map_nil, ne_eq, not_true_eq_false, iff_false] at hbusy
    simp at hbusy
    simp [hbusy]
  | cons a q =>
    have hown : owned (s.desc head) = false := by simpa using hbusy
    refine iff_of_true ⟨hown, ?_⟩ (List.cons_ne_nil a q)
    obtain rfl := h.head_eq
    rw [h.holds.status]
    refine ⟨?_, ?_, fun h0 => ?_⟩
    · rw [status_and (by decide)]
      exact a.frame.noError
    · rw [status_and (by decide)]
      exact a.frame.last
    · have hlen := a.frame.length_eq
      have hcrc := a.frame.crc_lt
      rw [status_and (by decide)] at h0
      rw [h0] at hlen
      simp at hlen
      omega

/-- `ETH_Rx_Packet` on a stored frame: it returns the frame, and the cursor moves on while the
descriptor stays with the CPU. -/
theorem ethRxPacket_holds (h : Holds s a) (hget : s.dmaRxDescToGet = a.slot) :
    ethRxPacket s = (frameOf a, { s with dmaRxDescToGet := nextIdx ethRxBufNb a.slot }) := by
  have hown : a.frame.status &&& ~~~descOwn &&& descOwn = 0 := by
    rw [BitVec.and_assoc, BitVec.and_comm (~~~descOwn), BitVec.and_not_self]
    exact BitVec.and_zero
  have hes := status_and (m := rxDescEs) (by decide) a.frame.status
  have hls := status_and (m := rxDescLs) (by decide) a.frame.status
  have hfs := status_and (m := rxDescFs) (by decide) a.frame.status
  have hfl := status_and (m := rxDescFl) (by decide) a.frame.status
  unfold ethRxPacket
  simp only [hget, h.status, h.next, h.place, hown, hes, hls, hfs, hfl, a.frame.noError,
    a.frame.last, a.frame.first, ne_eq, not_true_eq_false, not_false_eq_true, and_self, if_false,
    if_true, frameOf]

/-- The bytes of a stored frame, read from `l` on. -/
theorem Holds.readRun_eq (h : Holds s a) {l len : Nat} (hl : l + len ≤ a.frame.data.length) :
    a.frame.data.take l ++ readRun s.rxBuff (a.slot * ethBufSize + l) len =
      a.frame.data.take (l + len) := by
  have hpart : readRun s.rxBuff (a.slot * ethBufSize + l) len = (a.frame.data.drop l).take len := by
    apply List.ext_getElem?
    intro i
    by_cases hi : i < len
    · have hbyte := congrArg (fun xs => xs[l + i]?) h.bytes
      simp only [readRun_getElem? _ (show l + i < a.frame.data.length by omega)] at hbyte
      rw [readRun_getElem? _ hi, List.getElem?_take_of_lt hi, List.getElem?_drop, ← hbyte,
        Nat.add_assoc]
    · rw [List.getElem?_eq_none (by simp; omega), List.getElem?_eq_none (by simp; omega)]
  rw [hpart, List.take_add]

/-! ## The invariant -/

/-- What is known at each point of the handler. `old` are the frames handed back, `q` those still in
the ring from `head` on, `get` is `DMARxDescToGet` and `input` the bytes of the chains passed to
`netif->input`. -/
def Progress (get : Nat) (outcomes : List Bool) (input : List (List UInt8)) (old q : List Arrival)
    (head : Nat) : Pc → Prop
  | .idle | .guard =>
    get = head ∧ outcomes.length = old.length ∧ input = delivered old outcomes
  | .packet =>
    get = head ∧ outcomes.length = old.length ∧ input = delivered old outcomes ∧ q ≠ []
  | .alloc frame =>
    ∃ a q', q = a :: q' ∧ frame = frameOf a ∧ get = nextIdx ethRxBufNb a.slot ∧
      outcomes.length = old.length ∧ input = delivered old outcomes
  | .copy frame l lens p =>
    ∃ a q' os, q = a :: q' ∧ frame = frameOf a ∧ get = nextIdx ethRxBufNb a.slot ∧
      outcomes = os ++ [true] ∧ os.length = old.length ∧ input = delivered old os ∧
      p.flatten = a.frame.data.take l ∧ l + lens.sum = a.frame.data.length - 4
  | .give frame p =>
    ∃ a q' os, q = a :: q' ∧ frame = frameOf a ∧ get = nextIdx ethRxBufNb a.slot ∧
      outcomes = os ++ [p.isSome] ∧ os.length = old.length ∧ input = delivered old os ∧
      ∀ c, p = some c → c.flatten = a.frame.payload
  | .resume p | .input p =>
    get = head ∧ outcomes.length = old.length ∧
      input ++ (p.map List.flatten).toList = delivered old outcomes

/-- The invariant: the frames stored are those handed back followed by those in the ring, and the
handler's variables are as its counter says. -/
def SysInv (s : RxSys) : Prop :=
  ∃ old q head, s.arrived = old ++ q ∧ s.given = old.map Arrival.slot ∧ FrameRing s.rx head q ∧
    Progress s.rx.dmaRxDescToGet s.outcomes (s.rx.input.map List.flatten) old q head s.pc

theorem sysInv_init (s₀ : EthRx) : SysInv (sysInit s₀) :=
  ⟨[], [], 0, rfl, rfl, frameRing_init s₀, rfl, rfl, rfl⟩

/-- A frame that joins the queue behind the one in hand does not disturb the handler. -/
theorem Progress.push {get : Nat} {outcomes : List Bool} {input : List (List UInt8)}
    {old : List Arrival} {pc : Pc} (h : Progress get outcomes input old q head pc) (b : Arrival) :
    Progress get outcomes input old (q ++ [b]) head pc := by
  cases pc with
  | idle => exact h
  | guard => exact h
  | packet =>
    obtain ⟨hget, hlen, hin, -⟩ := h
    exact ⟨hget, hlen, hin, by simp⟩
  | alloc frame =>
    obtain ⟨a, q', rfl, h⟩ := h
    exact ⟨a, q' ++ [b], rfl, h⟩
  | copy frame l lens p =>
    obtain ⟨a, q', os, rfl, h⟩ := h
    exact ⟨a, q' ++ [b], os, rfl, h⟩
  | give frame p =>
    obtain ⟨a, q', os, rfl, h⟩ := h
    exact ⟨a, q' ++ [b], os, rfl, h⟩
  | resume p => exact h
  | input p => exact h

/-- **A DMA step** keeps the invariant at every point of the handler. -/
theorem sysInv_dma {s : RxSys} (h : SysInv s) (fr : GoodFrame) : SysInv (sysDma fr s) := by
  obtain ⟨old, q, head, harr, hgiven, hring, hpc⟩ := h
  -- the DMA touches neither the driver's cursor nor what was passed on
  have hget : (dmaRxStep fr.status fr.data s.rx).dmaRxDescToGet = s.rx.dmaRxDescToGet := by
    unfold dmaRxStep
    simp only
    split <;> rfl
  have hin : (dmaRxStep fr.status fr.data s.rx).input = s.rx.input := by
    unfold dmaRxStep
    simp only
    split <;> rfl
  have hpc' : Progress (sysDma fr s).rx.dmaRxDescToGet s.outcomes
      ((sysDma fr s).rx.input.map List.flatten) old q head s.pc := by
    simpa only [sysDma, hget, hin] using hpc
  cases ho : owned (s.rx.desc s.rx.dmaCursor) with
  | true =>
    have hring' : FrameRing (sysDma fr s).rx head (q ++ [⟨s.rx.dmaCursor, fr⟩]) :=
      frameRing_dma hring fr ho
    refine ⟨old, _, head, ?_, hgiven, hring', hpc'.push _⟩
    simp only [sysDma, ho, if_true, harr, List.append_assoc]
  | false =>
    refine ⟨old, q, head, ?_, hgiven, frameRing_dma_full hring fr ho, hpc'⟩
    simp [sysDma, ho, harr]

/-- **A step of the handler** keeps the invariant. -/
theorem sysInv_cpu {s : RxSys} (h : SysInv s) (pbufAlloc : PbufAlloc) :
    SysInv (sysCpu pbufAlloc s) := by
  obtain ⟨rx, pc, arrived, outcomes, given⟩ := s
  obtain ⟨old, q, head, rfl, rfl, hring, hpc⟩ := h
  cases pc with
  | idle => exact ⟨old, q, head, rfl, rfl, hring, hpc⟩
  | guard =>
    obtain ⟨hget, hlen, hin⟩ := hpc
    have hguard := hring.guard_iff
    simp only at hget
    rw [← hget] at hguard
    refine ⟨old, q, head, rfl, rfl, hring, ?_⟩
    simp only [sysCpu]
    split
    · rename_i hg
      exact ⟨hget, hlen, hin, hguard.mp hg⟩
    · exact ⟨hget, hlen, hin⟩
  | packet =>
    obtain ⟨hget, hlen, hin, hne⟩ := hpc
    obtain ⟨a, q', rfl⟩ := List.exists_cons_of_ne_nil hne
    have hpkt := ethRxPacket_holds hring.holds (hget.trans hring.head_eq)
    refine ⟨old, a :: q', head, rfl, rfl, ?_, ?_⟩
    · simp only [sysCpu, hpkt]
      exact hring.congr rfl rfl rfl
    · simp only [sysCpu, hpkt]
      exact ⟨a, q', rfl, rfl, rfl, hlen, hin⟩
  | alloc frame =>
    obtain ⟨a, q', rfl, rfl, hget, hlen, hin⟩ := hpc
    refine ⟨old, a :: q', head, ?_⟩
    simp only [sysCpu, frameOf_length]
    cases hans : pbufAlloc.answer (a.frame.data.length - 4) with
    | none =>
      exact ⟨rfl, rfl, hring, a, q', outcomes, rfl, rfl, hget, rfl, hlen, hin, by simp⟩
    | some lens =>
      have hsum := pbufAlloc.sum_eq _ _ hans
      exact ⟨rfl, rfl, hring, a, q', outcomes, rfl, rfl, hget, rfl, hlen, hin, rfl, by omega⟩
  | copy frame l lens p =>
    obtain ⟨a, q', os, rfl, rfl, hget, hout, hlen, hin, hp, hsum⟩ := hpc
    refine ⟨old, a :: q', head, ?_⟩
    cases lens with
    | nil =>
      refine ⟨rfl, rfl, hring, a, q', os, rfl, rfl, hget, hout, hlen, hin, ?_⟩
      rintro c ⟨⟩
      rw [hp, GoodFrame.payload]
      rw [List.sum_nil, Nat.add_zero] at hsum
      rw [hsum]
    | cons len lens =>
      rw [List.sum_cons] at hsum
      refine ⟨rfl, rfl, hring, a, q', os, rfl, rfl, hget, hout, hlen, hin, ?_, by omega⟩
      rw [List.flatten_append, hp, List.flatten_singleton]
      exact hring.holds.readRun_eq (by omega)
  | give frame p =>
    obtain ⟨a, q', os, rfl, rfl, hget, rfl, hlen, hin, hp⟩ := hpc
    refine ⟨old ++ [a], q', nextIdx ethRxBufNb a.slot, by simp [sysCpu, frameOf],
      by simp [sysCpu, frameOf], frameRing_give hring, hget, by simp [sysCpu, frameOf, hlen], ?_⟩
    simp only [sysCpu, frameOf, hin]
    rw [delivered_append_singleton hlen]
    cases p with
    | none => rfl
    | some c =>
      rw [← hp c rfl]
      rfl
  | resume p => exact ⟨old, q, head, rfl, rfl, hring.congr rfl rfl rfl, hpc⟩
  | input p =>
    obtain ⟨hget, hlen, hin⟩ := hpc
    cases p with
    | none => exact ⟨old, q, head, rfl, rfl, hring, hget, hlen, by simpa [sysCpu] using hin⟩
    | some c =>
      exact ⟨old, q, head, rfl, rfl, hring.congr rfl rfl rfl, hget, hlen,
        by simpa [sysCpu] using hin⟩

/-- Every event keeps the invariant. -/
theorem sysInv_step {s : RxSys} (e : SysEvent) (h : SysInv s) : SysInv (sysStep s e) := by
  cases e with
  | dma fr => exact sysInv_dma h fr
  | cpu pbufAlloc => exact sysInv_cpu h pbufAlloc
  | irq =>
    obtain ⟨rx, pc, arrived, outcomes, given⟩ := s
    cases pc with
    | idle => exact h
    | _ => exact h

end Stm32F407.Eth
