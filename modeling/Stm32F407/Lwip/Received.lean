import Stm32F407.Lwip.TcpClient
import Stm32F407.Lwip.UdpClient

/-!
# What the two receive functions leave in their buffers

`lwip_app_tcp_client_recv` and `lwip_app_udp_recv_data` have the same copy loop over a chain. Its
test mixes a `uint16_t` with the `int` difference of the buffer size and another `uint16_t`, which
would be negative, and a huge `size_t` in the `memcpy`, if `numSize` ever passed the buffer size.

* `copyLoop`: the loop with these conversions written out, and with the range of every `memcpy`.
* `copyLoop_spec`: `numSize` stays within the buffer, so the loop stores a prefix of the chain's
  bytes, however they are split over the chain.
* `received_prefix`: the two functions leave the same bytes.
-/

namespace Stm32F407.Lwip

open Stm32F407.Lib

/-- The bytes of a chain. -/
def chainData (p : List Pbuf) : List UInt8 := p.flatMap Pbuf.payload

/-- The copy loop in the integers of the source: the difference is an `int`, the length given to
`memcpy` a `size_t`, the sum a `uint16_t`. Returns the buffer, and the offset and length of every
`memcpy`. -/
def copyLoop (size : Nat) : List Pbuf → Nat → (Nat → UInt8) → (Nat → UInt8) × List (Nat × Nat)
  | [], _, buff => (buff, [])
  | p :: q, numSize, buff =>
    if (size : Int) - numSize < p.len then
      let n := (((size : Int) - numSize) % 2 ^ 32).toNat
      (blit buff numSize (p.payload.take n), [(numSize, n)])
    else
      let r := copyLoop size q ((numSize + p.len) % 2 ^ 16) (blit buff numSize p.payload)
      (r.1, (numSize, p.len) :: r.2)

/-- **The copy loop**: from an offset within the buffer on it stores the chain's bytes up to the
buffer's end, and no `memcpy` goes past it. -/
theorem copyLoop_spec {size : Nat} (hsize : size < 2 ^ 16) (p : List Pbuf) {numSize : Nat}
    (hn : numSize ≤ size) (buff : Nat → UInt8) :
    (copyLoop size p numSize buff).1 =
        blit buff numSize ((chainData p).take (size - numSize)) ∧
      ∀ st ∈ (copyLoop size p numSize buff).2, st.1 + st.2 ≤ size := by
  induction p generalizing numSize buff with
  | nil =>
    refine ⟨?_, by simp [copyLoop]⟩
    funext i
    simp [copyLoop, chainData, blit]
  | cons p q ih =>
    have hdata : chainData (p :: q) = p.payload ++ chainData q := List.flatMap_cons
    have hlen : p.len = p.payload.length := rfl
    rw [copyLoop, hdata]
    by_cases hlt : (size : Int) - numSize < p.len
    · have hconv : (((size : Int) - numSize) % 2 ^ 32).toNat = size - numSize := by omega
      rw [if_pos hlt]
      simp only [hconv]
      refine ⟨?_, by simp; omega⟩
      rw [List.take_append_of_le_length (by omega)]
    · have hsum : (numSize + p.len) % 2 ^ 16 = numSize + p.len := by omega
      have hn' : numSize + p.len ≤ size := by omega
      obtain ⟨hbuff, hstores⟩ := ih hn' (blit buff numSize p.payload)
      rw [if_neg hlt]
      simp only [hsum]
      constructor
      · rw [hbuff, hlen, blit_append, List.take_append,
          List.take_of_length_le (show p.payload.length ≤ size - numSize by omega),
          show size - numSize - p.payload.length = size - (numSize + p.payload.length) by omega]
      · intro st hst
        rcases List.mem_cons.mp hst with rfl | hst
        · simp only
          omega
        · exact hstores st hst

/-- The loops of the two functions are this loop: within the buffer the conversions do nothing. -/
theorem recvLoop_eq_copyLoop (p : List Pbuf) {numSize : Nat} (hn : numSize ≤ tcpAppClientRxBuffSize)
    (buff : Nat → UInt8) :
    recvLoop p numSize buff = (copyLoop tcpAppClientRxBuffSize p numSize buff).1 := by
  have hsize : tcpAppClientRxBuffSize = 200 := rfl
  induction p generalizing numSize buff with
  | nil => rfl
  | cons p q ih =>
    rw [recvLoop, copyLoop]
    by_cases hlt : p.len > tcpAppClientRxBuffSize - numSize
    · have hconv : (((tcpAppClientRxBuffSize : Int) - numSize) % 2 ^ 32).toNat =
          tcpAppClientRxBuffSize - numSize := by omega
      rw [if_pos hlt, if_pos (by omega)]
      simp only [hconv]
    · rw [if_neg hlt, if_neg (by omega)]
      simp only
      rw [show (numSize + p.len) % 2 ^ 16 = numSize + p.len by omega]
      exact ih (by omega) _

theorem udpRecvLoop_eq_recvLoop (p : List Pbuf) (numSize : Nat) (buff : Nat → UInt8) :
    udpRecvLoop p numSize buff = recvLoop p numSize buff := by
  induction p generalizing numSize buff with
  | nil => rfl
  | cons p q ih =>
    rw [udpRecvLoop, recvLoop, ih]
    rfl

/-- The buffer before the loop: `memset` over its `size` bytes. -/
def cleared (size : Nat) (buff : Nat → UInt8) : Nat → UInt8 :=
  fun i => if i < size then 0 else buff i

/-- What a receive function makes of the buffer `before` for the chain `p`: the first `size` bytes
of the chain, followed by zeros; nothing behind the buffer changes, and no `memcpy` of the loop goes
past its end. -/
structure Received (size : Nat) (p : List Pbuf) (before after : Nat → UInt8) : Prop where
  bytes : readRun after 0 size =
    (chainData p).take size ++ List.replicate (size - (chainData p).length) 0
  behind : ∀ i, size ≤ i → after i = before i
  loop : after = (copyLoop size p 0 (cleared size before)).1
  inside : ∀ st ∈ (copyLoop size p 0 (cleared size before)).2, st.1 + st.2 ≤ size

/-- The loop on a cleared buffer. -/
theorem received_copyLoop {size : Nat} (hsize : size < 2 ^ 16) (p : List Pbuf)
    (before : Nat → UInt8) :
    Received size p before (copyLoop size p 0 (cleared size before)).1 := by
  obtain ⟨hbuff, hstores⟩ := copyLoop_spec hsize p (Nat.zero_le size) (cleared size before)
  rw [Nat.sub_zero] at hbuff
  refine ⟨?_, fun i hi => ?_, rfl, hstores⟩
  · apply List.ext_getElem?
    intro i
    by_cases hi : i < size
    · rw [readRun_getElem? _ hi, hbuff, Nat.zero_add]
      by_cases hd : i < (chainData p).length
      · have htake : i < ((chainData p).take size).length := by simp; omega
        have := blit_of_lt (f := cleared size before) (a := 0) htake
        rw [Nat.zero_add] at this
        rw [this, List.getElem?_append_left htake, List.getElem?_eq_getElem htake]
      · rw [blit_of_out (by simp; omega), List.getElem?_append_right (by simp; omega),
          List.getElem?_replicate_of_lt (by simp; omega), cleared, if_pos hi]
    · rw [List.getElem?_eq_none (by simp; omega), List.getElem?_eq_none (by simp; omega)]
  · rw [hbuff, blit_of_out (by simp; omega), cleared, if_neg (by omega)]

/-- **The received prefix**: for every chain, the TCP callback on a connected client and the UDP
callback leave the chain's bytes cut off at the end of the buffer, and so the same bytes. -/
theorem received_prefix (p : Pbuf) (q : List Pbuf) (s : TcpClient)
    (hs : ConnStatus.close.toNat < s.tcpStatus.toNat) (u : UdpClient) (remoteIp : UInt32) :
    Received 200 (p :: q) s.recvBuff (lwipAppTcpClientRecv (p :: q) .ok s).2.recvBuff ∧
      Received 200 (p :: q) u.recvBuff (lwipAppUdpRecvData (p :: q) remoteIp u).recvBuff ∧
      readRun (lwipAppTcpClientRecv (p :: q) .ok s).2.recvBuff 0 200 =
        readRun (lwipAppUdpRecvData (p :: q) remoteIp u).recvBuff 0 200 := by
  have htcp : (lwipAppTcpClientRecv (p :: q) .ok s).2.recvBuff =
      (copyLoop 200 (p :: q) 0 (cleared 200 s.recvBuff)).1 := by
    simp only [lwipAppTcpClientRecv, reduceCtorEq, if_false, if_true, if_pos hs]
    exact recvLoop_eq_copyLoop _ (Nat.zero_le _) _
  have hudp : (lwipAppUdpRecvData (p :: q) remoteIp u).recvBuff =
      (copyLoop 200 (p :: q) 0 (cleared 200 u.recvBuff)).1 := by
    simp only [lwipAppUdpRecvData, reduceCtorEq, if_false]
    rw [udpRecvLoop_eq_recvLoop]
    exact recvLoop_eq_copyLoop _ (Nat.zero_le _) _
  have hsize : 200 < 2 ^ 16 := by decide
  have h1 := received_copyLoop hsize (p :: q) s.recvBuff
  have h2 := received_copyLoop hsize (p :: q) u.recvBuff
  rw [← htcp] at h1
  rw [← hudp] at h2
  exact ⟨h1, h2, h1.bytes.trans h2.bytes.symm⟩

/-- A chain of 150, 0 and 70 bytes: the last 20 do not fit. -/
theorem received_prefix_overflow :
    readRun (lwipAppTcpClientRecv [⟨1, List.replicate 150 7⟩, ⟨2, []⟩, ⟨3, List.replicate 70 9⟩] .ok
        tcpConnected).2.recvBuff 0 200 =
      List.replicate 150 7 ++ List.replicate 50 9 := by
  obtain ⟨h, -⟩ := received_prefix ⟨1, List.replicate 150 7⟩ [⟨2, []⟩, ⟨3, List.replicate 70 9⟩]
    tcpConnected (by decide) udpIdle 0
  rw [h.bytes]
  decide +kernel

end Stm32F407.Lwip
