import Stm32F407.Lib.Bytes
import Stm32F407.Lwip.Comm
import Stm32F407.Lwip.Pbuf

/-!
# The UDP client: `lwip_app_udp.c`

Model of `lwip_app_udp_init`, `lwip_app_udp_client`, `lwip_app_udp_recv_data`,
`lwip_app_udp_send_data` and `lwip_app_udp_conn_close`.

* The UDP layer is a parameter: what `udp_new`, `udp_bind`, `udp_connect`, `pbuf_alloc` and
  `udp_send` answer. Every call that is made to it is recorded with the control block it is given.
* `pstcLwipUdpPcb` is `none` when `udp_new` returned `NULL`; lwIP ignores a `NULL` control block, so
  no call on `none` touches one.

`udp_released_once_iff`: over every run after `lwip_app_udp_init`, nothing is done to the control
block after `udp_remove` iff no client call that follows the removal finds an error status, or data
to answer and a buffer to answer with. The client does not leave the error status when it closes, so
the next pass of the main loop closes the released block again.
-/

namespace Stm32F407.Lwip

open Stm32F407.Lib

/-! ## The client -/

/-- The functions of the UDP layer that the client calls. -/
inductive UdpOp where
  | bind (addr : UInt32) (port : Nat)
  | connect (addr : UInt32) (port : Nat)
  | recv
  | send (p : List Pbuf)
  | disconnect
  | remove
deriving DecidableEq

/-- A call of the UDP layer, on the control block `pcb`. -/
structure UdpCall where
  op : UdpOp
  pcb : Option Nat
deriving DecidableEq

/-- `UDP_APP_RX_BUFF_SIZE`. -/
def udpAppRxBuffSize : Nat := 200

/-- `udp_app_send_buff`, the text `hello world!\r\n`. -/
def udpAppSendBuff : List UInt8 :=
  [104, 101, 108, 108, 111, 32, 119, 111, 114, 108, 100, 33, 13, 10]

/-- `numUdpPort`. -/
def numUdpPort : Nat := 8089

/-- The client: `stcLwipObject`, `pstcLwipUdpPcb`, `udp_app_recv_buff`, the buffers' heap, and the
calls made to the UDP layer. -/
structure UdpClient where
  object : LwipObject
  pcb : Option Nat
  recvBuff : Nat → UInt8
  heap : PbufHeap
  calls : List UdpCall

/-- A call of the UDP layer on the client's control block. -/
def UdpClient.call (op : UdpOp) (s : UdpClient) : UdpClient :=
  { s with calls := s.calls ++ [⟨op, s.pcb⟩] }

/-- `stcLwipObject.udpstatus = st`. -/
def UdpClient.setStatus (st : UdpState) (s : UdpClient) : UdpClient :=
  { s with object := { s.object with udpstatus := st } }

/-- What the UDP layer answers to `lwip_app_udp_init`. -/
structure UdpLayer where
  new : Option Nat
  bind : ErrT
  connect : ErrT

/-- `lwip_app_udp_init`. -/
def lwipAppUdpInit (udp : UdpLayer) (s : UdpClient) : UdpState × UdpClient :=
  let s := { s with object := lwipAppRemoteIpSet 192 168 0 101 s.object }
  let stcRemoteIpAddr := ip4Addr s.object.remoteip
  let stcLocalIpAddr := ip4Addr s.object.ip
  let s := { s with pcb := udp.new }
  if s.pcb = none then (.objCrtErr, s)
  else
    let s := s.call (.bind stcLocalIpAddr numUdpPort)
    if udp.bind ≠ .ok then (.bindErr, s)
    else
      let s := s.call (.connect stcRemoteIpAddr numUdpPort)
      if udp.connect ≠ .ok then (.connErr, s)
      else (.initOk, s.call .recv)

/-- The copy loop of `lwip_app_udp_recv_data`. -/
def udpRecvLoop : List Pbuf → Nat → (Nat → UInt8) → Nat → UInt8
  | [], _, buff => buff
  | p :: q, numSize, buff =>
    if p.len > udpAppRxBuffSize - numSize then
      blit buff numSize (p.payload.take (udpAppRxBuffSize - numSize))
    else udpRecvLoop q (numSize + p.len) (blit buff numSize p.payload)

/-- `lwip_app_udp_recv_data`, for the chain `p` (`NULL` is the empty one) and a control block whose
`remote_ip` is `remoteIp`. -/
def lwipAppUdpRecvData (p : List Pbuf) (remoteIp : UInt32) (s : UdpClient) : UdpClient :=
  let s :=
    if p = [] then s
    else
      let buff := fun i => if i < udpAppRxBuffSize then 0 else s.recvBuff i
      { s.setStatus .recvOk with
        recvBuff := udpRecvLoop p 0 buff
        object := { (s.setStatus .recvOk).object with
          remoteip := ![(remoteIp &&& 0xff).toUInt8, (remoteIp >>> 8 &&& 0xff).toUInt8,
            (remoteIp >>> 16 &&& 0xff).toUInt8, (remoteIp >>> 24 &&& 0xff).toUInt8] } }
  { s with heap := (pbufFree p s.heap).2 }

/-- `lwip_app_udp_send_data` of `udp_app_send_buff`, where `pbuf_alloc` returns `pBuff` and
`udp_send` answers `err`. -/
def lwipAppUdpSendData (pBuff : List Pbuf) (err : ErrT) (s : UdpClient) : UdpClient :=
  let s := s.setStatus .sendErr
  let r := pbufTake pBuff udpAppSendBuff
  let s :=
    if pBuff ≠ [] then
      if r.1 = .ok then
        let s := s.call (.send r.2)
        if err = .ok then s.setStatus .sendOk else s
      else s
    else s
  { s with heap := (pbufFree r.2 s.heap).2 }

/-- `lwip_app_udp_conn_close`. -/
def lwipAppUdpConnClose (s : UdpClient) : UdpClient := (s.call .disconnect).call .remove

/-- `lwip_app_udp_client`. -/
def lwipAppUdpClient (pBuff : List Pbuf) (err : ErrT) (s : UdpClient) : UdpClient :=
  if s.object.udpstatus = .recvOk then
    lwipAppUdpSendData pBuff err (s.setStatus .initOk)
  else if UdpState.recvOk.toNat < s.object.udpstatus.toNat then lwipAppUdpConnClose s
  else s

/-- A pass of the main loop, with the answers of `pbuf_alloc` and `udp_send`, or a datagram. -/
inductive UdpEvent where
  | client (pBuff : List Pbuf) (err : ErrT)
  | recv (p : List Pbuf) (remoteIp : UInt32)

/-- One event. -/
def UdpClient.step (s : UdpClient) : UdpEvent → UdpClient
  | .client pBuff err => lwipAppUdpClient pBuff err s
  | .recv p remoteIp => lwipAppUdpRecvData p remoteIp s

/-- `stcLwipObject.udpstatus = lwip_app_udp_init()`, with no calls before it. -/
def UdpClient.start (udp : UdpLayer) (s : UdpClient) : UdpClient :=
  let r := lwipAppUdpInit udp { s with calls := [] }
  r.2.setStatus r.1

/-! ## The law -/

/-- **The law**: once a control block has been given to `udp_remove`, no later call is given it. -/
def ReleasedOnce (calls : List UdpCall) : Prop :=
  calls.Pairwise fun c d => c.op = .remove → c.pcb ≠ none → d.pcb ≠ c.pcb

instance (calls : List UdpCall) : Decidable (ReleasedOnce calls) :=
  inferInstanceAs (Decidable (List.Pairwise _ _))

/-- The client's control block has been removed. -/
def UdpClient.Removed (s : UdpClient) : Prop := s.pcb ≠ none ∧ ⟨.remove, s.pcb⟩ ∈ s.calls

/-- After the removal no pass finds an error status, and a pass that has data to answer finds no
buffer to answer with. -/
def UdpOk (s : UdpClient) : UdpEvent → Prop
  | .client pBuff _ => s.Removed →
    s.object.udpstatus.toNat ≤ UdpState.recvOk.toNat ∧
      (s.object.udpstatus = .recvOk → (pbufTake pBuff udpAppSendBuff).1 ≠ .ok)
  | .recv _ _ => True

/-- The invariant: the record obeys the law and is about the client's control block. -/
structure UdpInv (s : UdpClient) : Prop where
  released : ReleasedOnce s.calls
  own : ∀ c ∈ s.calls, c.pcb = s.pcb

variable {s : UdpClient}

/-! ## What an event adds to the record -/

/-- The calls that an event makes. -/
def UdpClient.newOps (s : UdpClient) : UdpEvent → List UdpOp
  | .client pBuff _ =>
    if s.object.udpstatus = .recvOk then
      if (pbufTake pBuff udpAppSendBuff).1 = .ok then [.send (pbufTake pBuff udpAppSendBuff).2]
      else []
    else if UdpState.recvOk.toNat < s.object.udpstatus.toNat then [.disconnect, .remove]
    else []
  | .recv _ _ => []

/-- An empty chain takes no data. -/
theorem ne_nil_of_pbufTake_ok {p : List Pbuf} {data : List UInt8}
    (h : (pbufTake p data).1 = .ok) : p ≠ [] := by
  rintro rfl
  simp [pbufTake] at h

theorem sendData_record (pBuff : List Pbuf) (err : ErrT) (s : UdpClient) :
    (lwipAppUdpSendData pBuff err s).pcb = s.pcb ∧
    (lwipAppUdpSendData pBuff err s).calls = s.calls ++
      if (pbufTake pBuff udpAppSendBuff).1 = .ok then
        [⟨.send (pbufTake pBuff udpAppSendBuff).2, s.pcb⟩]
      else [] := by
  unfold lwipAppUdpSendData
  by_cases hok : (pbufTake pBuff udpAppSendBuff).1 = .ok
  · simp only [ne_nil_of_pbufTake_ok hok, hok, ne_eq, not_false_eq_true, if_true]
    split <;> exact ⟨rfl, rfl⟩
  · simp only [hok, if_false, ite_self, List.append_nil]
    exact ⟨rfl, rfl⟩

/-- **What an event records**: its calls, all on the client's control block, which it keeps. -/
theorem step_record (s : UdpClient) (e : UdpEvent) :
    (s.step e).pcb = s.pcb ∧
    (s.step e).calls = s.calls ++ (s.newOps e).map fun op => ⟨op, s.pcb⟩ := by
  cases e with
  | client pBuff err =>
    simp only [UdpClient.step, lwipAppUdpClient, UdpClient.newOps]
    split
    · obtain ⟨hpcb, hcalls⟩ := sendData_record pBuff err (s.setStatus .initOk)
      refine ⟨hpcb, hcalls.trans ?_⟩
      split <;> rfl
    · split
      · exact ⟨rfl, by simp [lwipAppUdpConnClose, UdpClient.call]⟩
      · exact ⟨rfl, by simp⟩
  | recv p remoteIp =>
    simp only [UdpClient.step, lwipAppUdpRecvData]
    split <;> exact ⟨rfl, by simp [UdpClient.newOps, UdpClient.setStatus]⟩

/-- The calls of one event release the block at most once, and last. -/
theorem releasedOnce_newOps (s : UdpClient) (e : UdpEvent) :
    ReleasedOnce ((s.newOps e).map fun op => ⟨op, s.pcb⟩) := by
  cases e with
  | client pBuff err =>
    simp only [UdpClient.newOps]
    split
    · split <;> simp [ReleasedOnce]
    · split <;> simp [ReleasedOnce]
  | recv p remoteIp => exact List.Pairwise.nil

/-- An event makes no call iff it is one that `UdpOk` allows after the removal. -/
theorem newOps_eq_nil_iff (s : UdpClient) (e : UdpEvent) (hr : s.Removed) :
    s.newOps e = [] ↔ UdpOk s e := by
  cases e with
  | client pBuff err =>
    unfold UdpClient.newOps
    simp only [UdpOk, hr, true_imp_iff]
    by_cases hs : s.object.udpstatus = .recvOk
    · simp [hs]
    · by_cases ht : UdpState.recvOk.toNat < s.object.udpstatus.toNat
      · simp [hs, ht]
      · simp [hs, ht, Nat.le_of_not_lt ht]
  | recv p remoteIp => exact iff_of_true rfl trivial

/-! ## Runs -/

/-- Under the invariant, an event keeps the law iff it meets `UdpOk`. -/
theorem udpLaw_iff (e : UdpEvent) (h : UdpInv s) :
    ReleasedOnce (s.step e).calls ↔ UdpOk s e := by
  obtain ⟨-, hcalls⟩ := step_record s e
  rw [hcalls, ReleasedOnce, List.pairwise_append]
  constructor
  · rintro ⟨-, -, hacross⟩
    by_cases hr : s.Removed
    · rw [← newOps_eq_nil_iff s e hr]
      refine List.eq_nil_iff_forall_not_mem.mpr fun op hop => ?_
      exact hacross _ hr.2 ⟨op, s.pcb⟩ (List.mem_map_of_mem hop) rfl hr.1 rfl
    · cases e with
      | client pBuff err => exact fun hr' => absurd hr' hr
      | recv p remoteIp => trivial
  · intro hok
    refine ⟨h.released, releasedOnce_newOps s e, fun c hc d hd hop hne heq => ?_⟩
    -- a removal on record is a removal of the client's own block, so the event makes no call
    have hown := h.own c hc
    have hr : s.Removed := ⟨hown ▸ hne, by rw [← hown, ← hop]; exact hc⟩
    rw [(newOps_eq_nil_iff s e hr).mpr hok] at hd
    exact absurd hd List.not_mem_nil

/-- The events that meet `UdpOk` keep the invariant. -/
theorem udpInv_step (e : UdpEvent) (h : UdpInv s) (hok : UdpOk s e) : UdpInv (s.step e) := by
  refine ⟨(udpLaw_iff e h).mpr hok, fun c hc => ?_⟩
  obtain ⟨hpcb, hcalls⟩ := step_record s e
  rw [hcalls, List.mem_append] at hc
  rw [hpcb]
  rcases hc with hc | hc
  · exact h.own c hc
  · obtain ⟨op, -, rfl⟩ := List.mem_map.mp hc
    rfl

/-- `lwip_app_udp_init` removes nothing. -/
theorem udpInv_start (udp : UdpLayer) (s : UdpClient) : UdpInv (s.start udp) := by
  unfold UdpClient.start lwipAppUdpInit
  constructor
  · simp only [UdpClient.setStatus, UdpClient.call]
    split
    · exact List.Pairwise.nil
    · split
      · simp [ReleasedOnce]
      · split <;> simp [ReleasedOnce]
  · simp only [UdpClient.setStatus, UdpClient.call]
    split
    · simp
    · split
      · simp
      · split <;> simp

/-- No event takes a call off the record. -/
theorem releasedOnce_of_step (s : UdpClient) (e : UdpEvent) (h : ReleasedOnce (s.step e).calls) :
    ReleasedOnce s.calls := by
  rw [(step_record s e).2] at h
  exact (List.pairwise_append.mp h).1

/-- **The control block is released once.** For every result of `lwip_app_udp_init` and every run of
client passes and datagrams, no call is given the control block after `udp_remove` iff, after the
removal, no pass finds an error status, and no pass with data to answer gets a buffer that takes
the answer. -/
theorem udp_released_once_iff (udp : UdpLayer) (s : UdpClient) (es : List UdpEvent) :
    ReleasedOnce (run UdpClient.step (s.start udp) es).calls ↔
      AllSteps UdpClient.step UdpOk (s.start udp) es := by
  have hinv := udpInv_start udp s
  have hend : AllSteps UdpClient.step (fun s e => ReleasedOnce (s.step e).calls) (s.start udp) es ↔
      ReleasedOnce (run UdpClient.step (s.start udp) es).calls :=
    allSteps_iff_run (P := fun t : UdpClient => ReleasedOnce t.calls) releasedOnce_of_step
      hinv.released
  rw [← hend]
  exact allSteps_iff (fun _ e h hok => udpInv_step e h hok) (fun _ e h => udpLaw_iff e h) hinv

/-- A client before `lwip_app_udp_init`. -/
def udpIdle : UdpClient where
  object := ⟨fun _ => 0, fun _ => 0, fun _ => 0, fun _ => 0, 0, .initOk⟩
  pcb := none
  recvBuff := fun _ => 0
  heap := ⟨fun _ => 1, [], []⟩
  calls := []

/-- The port cannot be bound: two passes of the main loop remove the control block twice. -/
theorem udp_released_once_bind_err :
    ¬ ReleasedOnce (run UdpClient.step (udpIdle.start ⟨some 0, .use, .ok⟩)
      [.client [] .ok, .client [] .ok]).calls := by
  decide

end Stm32F407.Lwip
