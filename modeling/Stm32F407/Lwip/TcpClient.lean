import Stm32F407.Lib.Bytes
import Stm32F407.Lib.Runs
import Stm32F407.Lwip.Pbuf

/-!
# The TCP client: `lwip_app_tcp.c`

Model of the callbacks `lwip_app_tcp_client_connect`, `_recv`, `_poll` and `_sent`, and of
`lwip_app_tcp_client_send_data` and `_conn_close`.

* The callback argument is `&tcpStatus` (`tcp_arg` in `_connect`), so `*pStatus` and `tcpStatus` are
  one variable.
* The TCP layer is a parameter: what `tcp_sndbuf` and `tcp_write` answer in the `i`-th round of the
  send loop, and the chain that `pbuf_alloc` returns. `tcp_write` is called with the copy flag, so
  it keeps no reference to the buffer.
* `retErr` of `_recv` is not assigned when `p` is `NULL`: the result is then `none`.

`recv_contract_iff`: `_recv` keeps lwIP's contract on the chain it is given iff there is one and the
error is `ERR_OK` or `ERR_ABRT`. Two results about the reply that `_poll` sends:
* `poll_balanced_iff`: one pass frees every buffer of the reply exactly once iff the first buffer is
  not accepted. The send loop has given each accepted buffer back, and `_poll` frees the head again.
* `pending_run_iff`: over every order of the callbacks, a reply that is due is never forgotten iff
  no acknowledgement comes between the data and the reply, and every attempt to reply is accepted
  whole.
-/

namespace Stm32F407.Lwip

open Stm32F407.Lib

/-! ## The callbacks -/

/-- `enTcpClientConnStatus`. -/
inductive ConnStatus where
  | none
  | close
  | conn
  | recvOk
  | sendOk
  | ackWait
  | recvErr
  | sendErr
deriving DecidableEq, Repr

/-- The value of the enumerator. -/
def ConnStatus.toNat : ConnStatus → Nat
  | .none => 0
  | .close => 1
  | .conn => 2
  | .recvOk => 3
  | .sendOk => 4
  | .ackWait => 5
  | .recvErr => 6
  | .sendErr => 7

/-- `TCP_APP_CLIENT_RX_BUFF_SIZE`. -/
def tcpAppClientRxBuffSize : Nat := 200

/-- `tcp_app_client_send_buff`, the text `hello world!\r\n`. -/
def tcpAppClientSendBuff : List UInt8 :=
  [104, 101, 108, 108, 111, 32, 119, 111, 114, 108, 100, 33, 13, 10]

/-- The client: `tcpStatus`, `tcp_app_client_recv_buff`, the buffers' heap, the payloads `tcp_write`
has accepted, the lengths given to `tcp_recved`, and whether the connection was aborted. -/
structure TcpClient where
  tcpStatus : ConnStatus
  recvBuff : Nat → UInt8
  heap : PbufHeap
  written : List (List UInt8)
  recved : List Nat
  aborted : Bool

/-- What the TCP layer answers in the `i`-th round of a send. -/
structure TcpLayer where
  sndbuf : Nat → Nat
  write : Nat → ErrT

/-- `lwip_app_tcp_client_connect`. -/
def lwipAppTcpClientConnect (err : ErrT) (s : TcpClient) : ErrT × TcpClient :=
  if err = .ok then (.ok, { s with tcpStatus := .conn }) else (.conn, s)

/-- The copy loop of `lwip_app_tcp_client_recv`. -/
def recvLoop : List Pbuf → Nat → (Nat → UInt8) → Nat → UInt8
  | [], _, buff => buff
  | p :: q, numSize, buff =>
    if p.len > tcpAppClientRxBuffSize - numSize then
      blit buff numSize (p.payload.take (tcpAppClientRxBuffSize - numSize))
    else recvLoop q (numSize + p.len) (blit buff numSize p.payload)

/-- `lwip_app_tcp_client_recv`, for the chain `p` (`NULL` is the empty one). -/
def lwipAppTcpClientRecv (p : List Pbuf) (err : ErrT) (s : TcpClient) :
    Option ErrT × TcpClient :=
  let r : Option ErrT × TcpClient :=
    if p = [] then (none, s)
    else if err = .ok then
      if ConnStatus.close.toNat < s.tcpStatus.toNat then
        let buff := fun i => if i < tcpAppClientRxBuffSize then 0 else s.recvBuff i
        (some .ok, { s with
          recvBuff := recvLoop p 0 buff
          tcpStatus := .recvOk
          recved := s.recved ++ [totLen p] })
      else (some .ok, { s with recved := s.recved ++ [totLen p] })
    else (some err, { s with tcpStatus := .recvErr })
  (r.1, { r.2 with heap := (pbufFree p r.2.heap).2 })

/-- `lwip_app_tcp_client_send_data`, from round `i` on. -/
def lwipAppTcpClientSendData (tcp : TcpLayer) : Nat → List Pbuf → TcpClient → TcpClient
  | _, [], s => s
  | i, p :: q, s =>
    if p.len ≤ tcp.sndbuf i then
      if tcp.write i = .ok then
        lwipAppTcpClientSendData tcp (i + 1) q
          { s with
            heap := (pbufFree (p :: q) (pbufRef q s.heap)).2
            written := s.written ++ [p.payload] }
      else s
    else s

/-- `lwip_app_tcp_client_conn_close`. -/
def lwipAppTcpClientConnClose (s : TcpClient) : TcpClient := { s with aborted := true }

/-- `lwip_app_tcp_client_poll`, where `pbuf_alloc` returns `pBuff`. -/
def lwipAppTcpClientPoll (pBuff : List Pbuf) (tcp : TcpLayer) (s : TcpClient) :
    ErrT × TcpClient :=
  match s.tcpStatus with
  | .recvOk =>
    let pBuff := (pbufTake pBuff tcpAppClientSendBuff).2
    let s := lwipAppTcpClientSendData tcp 0 pBuff s
    let s := { s with tcpStatus := .ackWait }
    (.ok, { s with heap := (pbufFree pBuff s.heap).2 })
  | .close => (.abrt, lwipAppTcpClientConnClose s)
  | _ => (.ok, s)

/-- `lwip_app_tcp_client_sent`. -/
def lwipAppTcpClientSent (s : TcpClient) : ErrT × TcpClient :=
  (.ok, { s with tcpStatus := .sendOk })

/-! ## The chain that `_recv` is given -/

/-- **lwIP's contract on the received chain**: the callback returns a code it has assigned; after
`ERR_OK` the chain has been freed once; and after any code but `ERR_OK` and `ERR_ABRT` it has not
been freed, since `tcp_input` keeps it as `refused_data`. -/
def RecvContract (p : List Pbuf) (err : ErrT) (s : TcpClient) : Prop :=
  match lwipAppTcpClientRecv p err s with
  | (none, _) => False
  | (some .ok, s') => p ≠ [] → s'.heap = (pbufFree p s.heap).2
  | (some .abrt, _) => True
  | (some _, s') => s'.heap = s.heap

/-- `_recv` frees the chain on every path. -/
theorem recv_heap (p : List Pbuf) (err : ErrT) (s : TcpClient) :
    (lwipAppTcpClientRecv p err s).2.heap = (pbufFree p s.heap).2 := by
  unfold lwipAppTcpClientRecv
  split
  · rfl
  · split
    · split <;> rfl
    · rfl

/-- What `_recv` returns: nothing it has assigned when the peer has closed, else the error it was
given. -/
theorem recv_fst (p : List Pbuf) (err : ErrT) (s : TcpClient) :
    (lwipAppTcpClientRecv p err s).1 = if p = [] then none else some err := by
  unfold lwipAppTcpClientRecv
  split
  · rfl
  · by_cases herr : err = .ok
    · simp only [herr, if_true]
      split <;> rfl
    · simp only [herr, if_false]

/-- **The receive callback** keeps the contract iff it is given a chain, with `ERR_OK` or
`ERR_ABRT`. -/
theorem recv_contract_iff (p : List Pbuf) (err : ErrT) (s : TcpClient) :
    RecvContract p err s ↔ p ≠ [] ∧ (err = .ok ∨ err = .abrt) := by
  have hheap := recv_heap p err s
  have hret := recv_fst p err s
  unfold RecvContract
  by_cases hp : p = []
  · rw [if_pos hp] at hret
    refine iff_of_false ?_ fun h => h.1 hp
    split
    · exact id
    all_goals
      rename_i heq
      rw [heq] at hret
      exact absurd hret (by simp)
  · rw [if_neg hp] at hret
    split
    · rename_i heq
      rw [heq] at hret
      exact absurd hret (by simp)
    · rename_i s' heq
      rw [heq] at hret hheap
      exact iff_of_true (fun _ => hheap) ⟨hp, .inl (Option.some.inj hret).symm⟩
    · rename_i s' heq
      rw [heq] at hret
      exact iff_of_true trivial ⟨hp, .inr (Option.some.inj hret).symm⟩
    · rename_i e s' hok habrt heq
      rw [heq] at hret hheap
      obtain rfl : e = err := Option.some.inj hret
      -- the chain has been freed, and lwIP keeps it
      refine iff_of_false (fun h => pbufFree_ne_self hp s.heap (hheap.symm.trans h)) ?_
      rintro ⟨-, rfl | rfl⟩
      · exact hok rfl
      · exact habrt rfl

/-- A client that is connected. -/
def tcpConnected : TcpClient where
  tcpStatus := .conn
  recvBuff _ := 0
  heap := ⟨fun _ => 1, [], []⟩
  written := []
  recved := []
  aborted := false

/-- The peer closes: `_recv` returns a variable that was never assigned. -/
theorem recv_contract_peer_close : ¬ RecvContract [] .ok tcpConnected := id

/-! ## The send loop -/

/-- The round `i` accepts a buffer of this length. -/
def TcpLayer.Accepts (tcp : TcpLayer) (i len : Nat) : Prop := len ≤ tcp.sndbuf i ∧ tcp.write i = .ok

instance (tcp : TcpLayer) (i len : Nat) : Decidable (tcp.Accepts i len) :=
  inferInstanceAs (Decidable (_ ∧ _))

/-- The buffers accepted from round `i` on. -/
def acceptedPrefix (tcp : TcpLayer) : Nat → List Pbuf → List Pbuf
  | _, [] => []
  | i, p :: q => if tcp.Accepts i p.len then p :: acceptedPrefix tcp (i + 1) q else []

/-- One round: an accepted buffer is written and freed, and the loop goes on with the next. -/
theorem sendData_cons (tcp : TcpLayer) (i : Nat) (p : Pbuf) (q : List Pbuf) (s : TcpClient) :
    lwipAppTcpClientSendData tcp i (p :: q) s =
      if tcp.Accepts i p.len then
        lwipAppTcpClientSendData tcp (i + 1) q
          { s with
            heap := (pbufFree (p :: q) (pbufRef q s.heap)).2
            written := s.written ++ [p.payload] }
      else s := by
  rw [lwipAppTcpClientSendData]
  by_cases hlen : p.len ≤ tcp.sndbuf i
  · by_cases hw : tcp.write i = .ok
    · rw [if_pos hlen, if_pos hw, if_pos ⟨hlen, hw⟩]
    · rw [if_pos hlen, if_neg hw, if_neg fun h => hw h.2]
  · rw [if_neg hlen, if_neg fun h => hlen h.1]

/-- **The send loop** on a chain of its own: the accepted buffers are written, and each has gone
back to the pool. -/
theorem sendData_eq (tcp : TcpLayer) (i : Nat) {p : List Pbuf} {s : TcpClient}
    (hnd : (p.map Pbuf.addr).Nodup) (href : ∀ q ∈ p, s.heap.ref q.addr = 1) :
    lwipAppTcpClientSendData tcp i p s =
      { s with
        heap := s.heap.released ((acceptedPrefix tcp i p).map Pbuf.addr)
        written := s.written ++ (acceptedPrefix tcp i p).map Pbuf.payload } := by
  induction p generalizing i s with
  | nil => simp [lwipAppTcpClientSendData, acceptedPrefix]
  | cons p q ih =>
    rw [sendData_cons, acceptedPrefix]
    split
    · rw [pbufFree_pbufRef hnd href]
      rw [List.map_cons, List.nodup_cons] at hnd
      rw [ih _ hnd.2 fun r hr => ?_]
      · simp [released_append]
      · have hne : r.addr ≠ p.addr := fun he => hnd.1 (he ▸ List.mem_map_of_mem hr)
        simp only [PbufHeap.released, List.mem_singleton, hne, if_false]
        exact href r (List.mem_cons_of_mem _ hr)
    · simp

/-! ## The buffers of one reply -/

/-- What `pbuf_alloc` returns: `NULL`, or a chain of buffers that are referenced once each. -/
structure AllocChain (h : PbufHeap) where
  pbufs : List Pbuf
  nodup : (pbufs.map Pbuf.addr).Nodup
  ref_one : ∀ p ∈ pbufs, h.ref p.addr = 1

variable {s : TcpClient}

/-- The chain with the reply in it. -/
def AllocChain.taken {h : PbufHeap} (c : AllocChain h) (data : List UInt8) : AllocChain h where
  pbufs := (pbufTake c.pbufs data).2
  nodup := by
    rw [pbufTake_addr]
    exact c.nodup
  ref_one := by
    intro p hp
    have hmem : p.addr ∈ (pbufTake c.pbufs data).2.map Pbuf.addr := List.mem_map_of_mem hp
    rw [pbufTake_addr, List.mem_map] at hmem
    obtain ⟨q, hq, heq⟩ := hmem
    rw [← heq]
    exact c.ref_one q hq

/-- One pass of `_poll` frees every buffer of the reply exactly once: no counter that is already 0
is decremented, and each buffer goes back to the pool once. -/
def Balanced (s : TcpClient) (c : AllocChain s.heap) (tcp : TcpLayer) : Prop :=
  let h := (lwipAppTcpClientPoll c.pbufs tcp s).2.heap
  h.overfreed = s.heap.overfreed ∧
    ∀ p ∈ c.pbufs, h.deallocated.count p.addr = s.heap.deallocated.count p.addr + 1

/-- The heap after one pass in state `enTcpClientRecvOK`. -/
theorem poll_heap (c : AllocChain s.heap) (tcp : TcpLayer) (hs : s.tcpStatus = .recvOk) :
    (lwipAppTcpClientPoll c.pbufs tcp s).2.heap =
      (pbufFree (c.taken tcpAppClientSendBuff).pbufs
        (lwipAppTcpClientSendData tcp 0 (c.taken tcpAppClientSendBuff).pbufs s).heap).2 := by
  unfold lwipAppTcpClientPoll
  rw [hs]
  rfl

/-- A reply whose first buffer is refused: the send loop frees nothing and the final free frees all.
-/
theorem reply_heap_refused (c : AllocChain s.heap) (tcp : TcpLayer)
    (hfirst : ∀ p ∈ c.pbufs.head?, ¬ tcp.Accepts 0 p.len) :
    (pbufFree c.pbufs (lwipAppTcpClientSendData tcp 0 c.pbufs s).heap).2 =
      s.heap.released (c.pbufs.map Pbuf.addr) := by
  have hnone : acceptedPrefix tcp 0 c.pbufs = [] := by
    cases hc : c.pbufs with
    | nil => rfl
    | cons p q => rw [acceptedPrefix, if_neg (hfirst p (by rw [hc]; rfl))]
  rw [sendData_eq tcp 0 c.nodup c.ref_one, hnone, List.map_nil, released_nil]
  exact pbufFree_ones c.nodup c.ref_one

/-- A reply whose first buffer is accepted: the send loop has freed it, and the final free frees it
again. -/
theorem reply_overfreed (c : AllocChain s.heap) {tcp : TcpLayer} {p : Pbuf} {q : List Pbuf}
    (hc : c.pbufs = p :: q) (hacc : tcp.Accepts 0 p.len) :
    (pbufFree c.pbufs (lwipAppTcpClientSendData tcp 0 c.pbufs s).heap).2.overfreed =
      s.heap.overfreed ++ [p.addr] := by
  rw [sendData_eq tcp 0 c.nodup c.ref_one, hc, acceptedPrefix, if_pos hacc, pbufFree_zero]
  · rfl
  · simp [PbufHeap.released]

/-- The reply is refused or accepted by the length of its first buffer, which `pbuf_take` keeps. -/
theorem taken_head? {h : PbufHeap} (c : AllocChain h) (data : List UInt8) :
    (c.taken data).pbufs.head?.map (fun p => (p.addr, p.len)) =
      c.pbufs.head?.map fun p => (p.addr, p.len) := by
  rw [← List.head?_map, ← List.head?_map]
  exact congrArg List.head? (pbufTake_frame c.pbufs data)

/-- **The buffers of one reply.** A pass of `_poll` in state `enTcpClientRecvOK` frees every buffer
of the chain exactly once iff `pbuf_alloc` failed or the TCP layer refuses the first buffer. -/
theorem poll_balanced_iff (s : TcpClient) (hs : s.tcpStatus = .recvOk) (c : AllocChain s.heap)
    (tcp : TcpLayer) :
    Balanced s c tcp ↔ ∀ p ∈ c.pbufs.head?, ¬ tcp.Accepts 0 p.len := by
  have hhead := taken_head? c tcpAppClientSendBuff
  unfold Balanced
  rw [poll_heap c tcp hs]
  constructor
  · rintro ⟨hover, -⟩ p hp hacc
    rw [hp, Option.map_some, Option.map_eq_some_iff] at hhead
    obtain ⟨p', hp', heq⟩ := hhead
    obtain ⟨q, hq⟩ := List.head?_eq_some_iff.mp hp'
    have hlen : p'.len = p.len := (Prod.mk.inj heq).2
    -- the head has been freed twice
    rw [reply_overfreed (c.taken tcpAppClientSendBuff) hq (hlen ▸ hacc)] at hover
    exact absurd hover (by simp)
  · intro hfirst
    rw [reply_heap_refused (c.taken tcpAppClientSendBuff) tcp fun p hp => ?_]
    · refine ⟨rfl, fun p hp => ?_⟩
      have hone : (c.pbufs.map Pbuf.addr).count p.addr = 1 :=
        List.count_eq_one_of_mem c.nodup (List.mem_map_of_mem hp)
      simp only [PbufHeap.released, List.count_append, AllocChain.taken, pbufTake_addr, hone]
    · rw [hp, Option.map_some, eq_comm, Option.map_eq_some_iff] at hhead
      obtain ⟨p', hp', heq⟩ := hhead
      have hlen : p'.len = p.len := (Prod.mk.inj heq).2
      rw [← hlen]
      exact hfirst p' hp'

/-- A client that has received data, with every buffer of the pool referenced once. -/
def replyDue : TcpClient where
  tcpStatus := .recvOk
  recvBuff _ := 0
  heap := ⟨fun _ => 1, [], []⟩
  written := []
  recved := []
  aborted := false

/-- One buffer for the 14 bytes of the reply. -/
def replyChain : AllocChain replyDue.heap where
  pbufs := [⟨0, List.replicate 14 0⟩]
  nodup := by simp
  ref_one _ _ := rfl

/-- With a full send buffer the reply is refused and its buffer freed once. -/
theorem poll_balanced_sndbuf_full : Balanced replyDue replyChain ⟨fun _ => 0, fun _ => .ok⟩ :=
  (poll_balanced_iff replyDue rfl replyChain _).mpr (by decide)

/-- A reply that is sent: its only buffer is freed by the send loop, and again by `_poll`. -/
theorem poll_reply_freed_twice :
    ¬ Balanced replyDue replyChain ⟨fun _ => 14600, fun _ => .ok⟩ := by
  rintro ⟨hover, -⟩
  revert hover
  decide

/-! ## The reply that is due -/

/-- The TCP layer accepts every buffer of the chain, and there is one. -/
def AcceptsAll (tcp : TcpLayer) (p : List Pbuf) : Prop :=
  p ≠ [] ∧ ∀ j q, p[j]? = some q → tcp.Accepts j q.len

/-- This pass of `_poll` has had a whole reply accepted by `tcp_write`. -/
def ReplyAccepted (s : TcpClient) (pBuff : List Pbuf) (tcp : TcpLayer) : Prop :=
  s.tcpStatus = .recvOk ∧ pBuff ≠ [] ∧
    (lwipAppTcpClientPoll pBuff tcp s).2.written =
      s.written ++ (pbufTake pBuff tcpAppClientSendBuff).2.map Pbuf.payload

instance (s : TcpClient) (pBuff : List Pbuf) (tcp : TcpLayer) :
    Decidable (ReplyAccepted s pBuff tcp) :=
  inferInstanceAs (Decidable (_ ∧ _ ∧ _))

/-- What the send loop writes is the accepted buffers' payloads. -/
theorem sendData_written (tcp : TcpLayer) (i : Nat) (p : List Pbuf) (s : TcpClient) :
    (lwipAppTcpClientSendData tcp i p s).written =
      s.written ++ (acceptedPrefix tcp i p).map Pbuf.payload := by
  induction p generalizing i s with
  | nil => simp [lwipAppTcpClientSendData, acceptedPrefix]
  | cons p q ih =>
    rw [sendData_cons, acceptedPrefix]
    split
    · rw [ih, List.map_cons, List.append_assoc, List.singleton_append]
    · simp

/-- The accepted buffers begin the chain. -/
theorem acceptedPrefix_isPrefix (tcp : TcpLayer) (i : Nat) (p : List Pbuf) :
    acceptedPrefix tcp i p <+: p := by
  induction p generalizing i with
  | nil => exact List.prefix_rfl
  | cons p q ih =>
    rw [acceptedPrefix]
    split
    · exact List.cons_prefix_cons.mpr ⟨rfl, ih (i + 1)⟩
    · exact List.nil_prefix

/-- All is accepted iff every round accepts its buffer. -/
theorem acceptedPrefix_length_eq_iff (tcp : TcpLayer) (i : Nat) (p : List Pbuf) :
    (acceptedPrefix tcp i p).length = p.length ↔
      ∀ j q, p[j]? = some q → tcp.Accepts (i + j) q.len := by
  induction p generalizing i with
  | nil => simp [acceptedPrefix]
  | cons p q ih =>
    rw [acceptedPrefix]
    split
    · rename_i hacc
      rw [List.length_cons, List.length_cons, Nat.add_right_cancel_iff, ih]
      constructor
      · intro h j r hr
        cases j with
        | zero => simp at hr; rw [← hr]; exact hacc
        | succ j =>
          rw [Nat.add_comm j, ← Nat.add_assoc]
          exact h j r (by simpa using hr)
      · intro h j r hr
        have := h (j + 1) r (by simpa using hr)
        rwa [Nat.add_comm j, ← Nat.add_assoc] at this
    · rename_i hacc
      refine iff_of_false (by simp) fun h => hacc ?_
      simpa using h 0 p (by simp)

/-- **A whole reply is accepted** iff the TCP layer accepts every buffer of the chain. -/
theorem replyAccepted_iff {s : TcpClient} (hs : s.tcpStatus = .recvOk) (pBuff : List Pbuf)
    (tcp : TcpLayer) : ReplyAccepted s pBuff tcp ↔ AcceptsAll tcp pBuff := by
  have hwritten : (lwipAppTcpClientPoll pBuff tcp s).2.written =
      s.written ++ (acceptedPrefix tcp 0 (pbufTake pBuff tcpAppClientSendBuff).2).map
        Pbuf.payload := by
    unfold lwipAppTcpClientPoll
    rw [hs]
    exact sendData_written tcp 0 _ s
  have hlens : ∀ j : Nat, (pbufTake pBuff tcpAppClientSendBuff).2[j]?.map Pbuf.len =
      pBuff[j]?.map Pbuf.len := by
    intro j
    have := congrArg (fun l => l[j]?.map Prod.snd) (pbufTake_frame pBuff tcpAppClientSendBuff)
    simpa [Function.comp_def] using this
  have hlen : (acceptedPrefix tcp 0 (pbufTake pBuff tcpAppClientSendBuff).2).map Pbuf.payload =
      (pbufTake pBuff tcpAppClientSendBuff).2.map Pbuf.payload ↔
      (acceptedPrefix tcp 0 (pbufTake pBuff tcpAppClientSendBuff).2).length =
        (pbufTake pBuff tcpAppClientSendBuff).2.length := by
    constructor
    · intro h
      simpa using congrArg List.length h
    · intro h
      rw [(acceptedPrefix_isPrefix tcp 0 _).eq_of_length h]
  unfold ReplyAccepted AcceptsAll
  rw [hwritten, List.append_cancel_left_eq, hlen, acceptedPrefix_length_eq_iff]
  simp only [hs, true_and, Nat.zero_add]
  refine and_congr_right fun _ => forall_congr' fun j => ?_
  -- buffer by buffer, only the lengths matter
  have := hlens j
  cases h1 : (pbufTake pBuff tcpAppClientSendBuff).2[j]? <;> cases h2 : pBuff[j]? <;>
    simp_all

/-- What lwIP may call once the connection is up: `_recv` with data and `ERR_OK`, `_poll` and
`_sent`. -/
inductive TcpEvent where
  | recv (p : Pbuf) (q : List Pbuf)
  | poll (pBuff : List Pbuf) (tcp : TcpLayer)
  | sent

/-- The client, and whether data has come since the last reply that was accepted whole. -/
structure ReplyState where
  client : TcpClient
  pending : Bool

/-- One callback. -/
def tcpStep (t : ReplyState) : TcpEvent → ReplyState
  | .recv p q => ⟨(lwipAppTcpClientRecv (p :: q) .ok t.client).2, true⟩
  | .poll pBuff tcp =>
    ⟨(lwipAppTcpClientPoll pBuff tcp t.client).2,
      t.pending && !decide (ReplyAccepted t.client pBuff tcp)⟩
  | .sent => ⟨(lwipAppTcpClientSent t.client).2, t.pending⟩

/-- The client when the connection has come up. -/
def tcpStart (s₀ : TcpClient) : ReplyState := ⟨(lwipAppTcpClientConnect .ok s₀).2, false⟩

/-- A pending reply is still due after the callback. -/
def ReplyLaw (t : ReplyState) (e : TcpEvent) : Prop :=
  (tcpStep t e).pending = true → (tcpStep t e).client.tcpStatus = .recvOk

/-- No acknowledgement arrives while a reply is due, and a reply that is attempted is accepted
whole. -/
def ReplyOk (t : ReplyState) : TcpEvent → Prop
  | .recv _ _ => True
  | .poll pBuff tcp => t.client.tcpStatus = .recvOk → AcceptsAll tcp pBuff
  | .sent => t.client.tcpStatus ≠ .recvOk

/-- The invariant: the connection is not closed, and a reply is due iff one is pending. -/
structure ReplyInv (t : ReplyState) : Prop where
  isOpen : ConnStatus.close.toNat < t.client.tcpStatus.toNat
  due_iff : t.client.tcpStatus = .recvOk ↔ t.pending = true

variable {t : ReplyState}

theorem replyInv_start (s₀ : TcpClient) : ReplyInv (tcpStart s₀) where
  isOpen := by simp [tcpStart, lwipAppTcpClientConnect, ConnStatus.toNat]
  due_iff := by simp [tcpStart, lwipAppTcpClientConnect]

/-- Data on an open connection makes a reply due. -/
theorem recv_tcpStatus {s : TcpClient} (h : ConnStatus.close.toNat < s.tcpStatus.toNat) (p : Pbuf)
    (q : List Pbuf) : (lwipAppTcpClientRecv (p :: q) .ok s).2.tcpStatus = .recvOk := by
  simp [lwipAppTcpClientRecv, h]

/-- An attempt to reply leaves the client waiting for the acknowledgement, however it went. -/
theorem poll_tcpStatus_recvOk {s : TcpClient} (h : s.tcpStatus = .recvOk) (pBuff : List Pbuf)
    (tcp : TcpLayer) : (lwipAppTcpClientPoll pBuff tcp s).2.tcpStatus = .ackWait := by
  unfold lwipAppTcpClientPoll
  rw [h]

/-- With no reply due and the connection open, `_poll` does nothing. -/
theorem poll_idle {s : TcpClient} (h : ConnStatus.close.toNat < s.tcpStatus.toNat)
    (hne : s.tcpStatus ≠ .recvOk) (pBuff : List Pbuf) (tcp : TcpLayer) :
    (lwipAppTcpClientPoll pBuff tcp s).2 = s := by
  unfold lwipAppTcpClientPoll
  split
  · rename_i heq
    exact absurd heq hne
  · rename_i heq
    rw [heq] at h
    exact absurd h (Nat.lt_irrefl _)
  · rfl

/-- One callback keeps a pending reply due iff it meets `ReplyOk`. -/
theorem replyLaw_iff (e : TcpEvent) (h : ReplyInv t) : ReplyLaw t e ↔ ReplyOk t e := by
  cases e with
  | recv p q => exact iff_of_true (fun _ => recv_tcpStatus h.isOpen p q) trivial
  | poll pBuff tcp =>
    unfold ReplyLaw
    simp only [tcpStep, ReplyOk, Bool.and_eq_true, Bool.not_eq_true', decide_eq_false_iff_not]
    by_cases hs : t.client.tcpStatus = .recvOk
    · rw [poll_tcpStatus_recvOk hs, replyAccepted_iff hs, h.due_iff.mp hs]
      simp [hs]
    · simp [hs, poll_idle h.isOpen hs, ← h.due_iff]
  | sent =>
    unfold ReplyLaw
    simp only [tcpStep, ReplyOk, lwipAppTcpClientSent]
    rw [← h.due_iff]
    simp

/-- The callbacks that meet `ReplyOk` keep the invariant. -/
theorem replyInv_step (e : TcpEvent) (h : ReplyInv t) (hok : ReplyOk t e) :
    ReplyInv (tcpStep t e) := by
  cases e with
  | recv p q =>
    have hst := recv_tcpStatus h.isOpen p q
    constructor
    · show _ < (lwipAppTcpClientRecv (p :: q) .ok t.client).2.tcpStatus.toNat
      rw [hst]
      decide
    · exact iff_of_true hst rfl
  | poll pBuff tcp =>
    by_cases hs : t.client.tcpStatus = .recvOk
    · have hst := poll_tcpStatus_recvOk hs pBuff tcp
      have hacc := (replyAccepted_iff hs pBuff tcp).mpr (hok hs)
      constructor
      · show _ < (lwipAppTcpClientPoll pBuff tcp t.client).2.tcpStatus.toNat
        rw [hst]
        decide
      · simp [tcpStep, hst, hacc]
    · have hpend : t.pending = false := by
        simpa using fun hp => hs (h.due_iff.mpr hp)
      constructor
      · simp only [tcpStep, poll_idle h.isOpen hs]
        exact h.isOpen
      · simp [tcpStep, poll_idle h.isOpen hs, hs, hpend]
  | sent =>
    have hpend : t.pending = false := by
      simpa using fun hp => hok (h.due_iff.mpr hp)
    constructor
    · show _ < ConnStatus.sendOk.toNat
      decide
    · simp [tcpStep, lwipAppTcpClientSent, hpend]

/-- **The pending reply.** Over every order of the callbacks after the connection has come up, data
received since the last accepted reply keeps `tcpStatus` at `enTcpClientRecvOK`, throughout the run,
iff no `_sent` arrives while a reply is due and every `_poll` that attempts one gets a chain that
the TCP layer accepts whole. -/
theorem pending_run_iff (s₀ : TcpClient) (es : List TcpEvent) :
    AllSteps tcpStep ReplyLaw (tcpStart s₀) es ↔ AllSteps tcpStep ReplyOk (tcpStart s₀) es :=
  allSteps_iff (fun _ e h hok => replyInv_step e h hok) (fun _ e h => replyLaw_iff e h)
    (replyInv_start s₀)

/-- Data arrives between a reply and its acknowledgement: the second reply is forgotten. -/
theorem pending_run_ack_cancels :
    ¬ AllSteps tcpStep ReplyLaw (tcpStart replyDue)
      [.recv ⟨0, [1]⟩ [], .poll [⟨1, List.replicate 14 0⟩] ⟨fun _ => 14600, fun _ => .ok⟩,
        .recv ⟨2, [2]⟩ [], .sent] := by
  rintro ⟨-, -, -, hlaw, -⟩
  exact absurd (hlaw rfl) (by decide)

end Stm32F407.Lwip
