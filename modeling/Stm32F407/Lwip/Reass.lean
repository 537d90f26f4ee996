import Mathlib.Algebra.Order.Ring.Nat
import Mathlib.Data.List.Basic

/-!
# Reassembly of IPv4 fragments: `ip4_frag.c`

Model of `ip4_reass`, of the queue behind it and of its timer.

* The header fields are the numbers they hold, the byte order undone. `ip4_input` has cut the buffers
  to the length of the header, so the bytes behind the header are `len - IP_HLEN`.
* The `ip_reass_helper` that takes the place of the header in a queued fragment is `Helper`, with the
  bytes behind it and the number of buffers it came in; the list linked by `next_pbuf` is a list, and
  so is the list of datagrams, the newest in front.
* The pool of `struct ip_reassdata` has `MEMP_NUM_REASSDATA` places that nothing else takes.
* The counters of `IPFRAG_STATS` and the freeing of dropped buffers are left out. The time-exceeded
  messages are recorded by the header they quote.
-/

namespace Stm32F407.Lwip.Reass

/-- `IP_HLEN`. -/
def ipHlen : Nat := 20

/-- `IP_REASS_MAX_PBUFS`. -/
def ipReassMaxPbufs : Nat := 10

/-- `MEMP_NUM_REASSDATA`. -/
def mempNumReassdata : Nat := 5

/-- `IP_REASS_MAXAGE`. -/
def ipReassMaxage : Nat := 15

/-- `struct ip_hdr`. -/
structure IpHdr where
  vHl : UInt8
  tos : UInt8
  len : UInt16
  id : UInt16
  offset : UInt16
  ttl : UInt8
  proto : UInt8
  chksum : UInt16
  src : UInt32
  dest : UInt32
deriving DecidableEq, Repr

/-- `IPH_HL_BYTES`. -/
def IpHdr.hlBytes (h : IpHdr) : Nat := h.vHl.toNat % 2 ^ 4 * 4

/-- `IPH_OFFSET_BYTES`. -/
def IpHdr.offsetBytes (h : IpHdr) : Nat := h.offset.toNat % 2 ^ 13 * 8

/-- The flag `IP_MF`. -/
def IpHdr.mf (h : IpHdr) : Bool := h.offset.toNat / 2 ^ 13 % 2 = 1

/-- `IP_ADDRESSES_AND_ID_MATCH`. -/
def Matches (a b : IpHdr) : Prop := a.src = b.src ∧ a.dest = b.dest ∧ a.id = b.id

instance Matches.instDecidable (a b : IpHdr) : Decidable (Matches a b) :=
  inferInstanceAs (Decidable (_ ∧ _ ∧ _))

/-- A fragment as it comes from `ip4_input`: its header, the bytes behind it, and `pbuf_clen`. -/
structure Frag where
  hdr : IpHdr
  data : List UInt8
  clen : Nat
  data_length : data.length = hdr.len.toNat - ipHlen
  clen_pos : 0 < clen

/-- `struct ip_reass_helper`, with the bytes and the buffers of the fragment it is in. -/
structure Helper where
  start : Nat
  stop : Nat
  data : List UInt8
  clen : Nat
deriving DecidableEq, Repr

/-- `struct ip_reassdata`. -/
structure Reassdata where
  iphdr : IpHdr
  p : List Helper
  datagramLen : Nat
  lastfrag : Bool
  timer : Nat

/-- `reassdatagrams` and `ip_reass_pbufcount`, and the headers of the time-exceeded messages. -/
structure State where
  reassdatagrams : List Reassdata
  pbufcount : Nat
  timeExceeded : List IpHdr

/-- A datagram that `ip4_reass` returns. -/
structure Datagram where
  hdr : IpHdr
  data : List UInt8
deriving DecidableEq, Repr

/-- `pbuf_clen` of everything queued for a datagram. -/
def clens (p : List Helper) : Nat := (p.map Helper.clen).sum

/-- `ip_reass_free_complete_datagram` of the datagram at place `i`: the buffers freed. -/
def freeCompleteDatagram (s : State) (i : Nat) : Nat × State :=
  match s.reassdatagrams[i]? with
  | none => (0, s)
  | some ipr =>
    (clens ipr.p,
      { reassdatagrams := s.reassdatagrams.eraseIdx i
        pbufcount := (s.pbufcount + 2 ^ 16 - clens ipr.p) % 2 ^ 16
        timeExceeded :=
          if (ipr.p.head?.map Helper.start) = some 0 then s.timeExceeded ++ [ipr.iphdr]
          else s.timeExceeded })

/-- The older of the datagram at place `i` and the oldest seen so far. -/
def older (i timer : Nat) : Option (Nat × Nat) → Nat × Nat
  | none => (i, timer)
  | some (j, t) => if timer ≤ t then (i, timer) else (j, t)

/-- The inner loop of `ip_reass_remove_oldest_datagram`: the place and the timer of the oldest datagram
seen, and the number of datagrams other than that of `fraghdr`. -/
def findOldest (fraghdr : IpHdr) (i : Nat) (oldest : Option (Nat × Nat)) (others : Nat) :
    List Reassdata → Option (Nat × Nat) × Nat
  | [] => (oldest, others)
  | r :: rs =>
    if Matches r.iphdr fraghdr then findOldest fraghdr (i + 1) oldest others rs
    else findOldest fraghdr (i + 1) (some (older i r.timer oldest)) (others + 1) rs

/-- The `do` loop of `ip_reass_remove_oldest_datagram`, which frees a datagram in every round but the
last. -/
def removeOldest (fraghdr : IpHdr) (pbufsNeeded : Nat) : Nat → Nat → State → Nat × State
  | 0, pbufsFreed, s => (pbufsFreed, s)
  | fuel + 1, pbufsFreed, s =>
    let (oldest, others) := findOldest fraghdr 0 none 0 s.reassdatagrams
    match oldest with
    | none => (pbufsFreed, s)
    | some (i, _) =>
      let (n, s) := freeCompleteDatagram s i
      if pbufsFreed + n < pbufsNeeded ∧ 1 < others then
        removeOldest fraghdr pbufsNeeded fuel (pbufsFreed + n) s
      else (pbufsFreed + n, s)

/-- `ip_reass_remove_oldest_datagram`. -/
def ipReassRemoveOldestDatagram (s : State) (fraghdr : IpHdr) (pbufsNeeded : Nat) : Nat × State :=
  removeOldest fraghdr pbufsNeeded (s.reassdatagrams.length + 1) 0 s

/-- `ip_reass_enqueue_new_datagram`: the new datagram is the first of the list. -/
def ipReassEnqueueNewDatagram (s : State) (fraghdr : IpHdr) (clen : Nat) : Bool × State :=
  let enqueue (s : State) : Bool × State :=
    (true, { s with reassdatagrams := ⟨fraghdr, [], 0, false, ipReassMaxage⟩ :: s.reassdatagrams })
  if s.reassdatagrams.length < mempNumReassdata then enqueue s
  else
    let (n, s) := ipReassRemoveOldestDatagram s fraghdr clen
    if clen ≤ n ∧ s.reassdatagrams.length < mempNumReassdata then enqueue s else (false, s)

/-- The loop over the queue: what is in front of the new fragment and what is behind it, and whether
there is no hole up to it; `none` when the fragment is dropped. `prev` is the end of the fragment in
front, if there is one. -/
def chainLoop (new : Helper) (prev : Option Nat) (valid : Bool) :
    List Helper → Option (List Helper × List Helper × Bool)
  | [] => some ([], [], valid && prev.all (· == new.start))
  | q :: qs =>
    if new.start < q.start then
      if prev.any (new.start < ·) ∨ q.start < new.stop then none
      else some ([], q :: qs, valid && prev.all (· == new.start))
    else if new.start = q.start then none
    else if new.start < q.stop then none
    else
      (chainLoop new (some q.stop) (valid && prev.all (· == q.start)) qs).map fun r =>
        (q :: r.1, r.2)

/-- The check that there are no holes after the new fragment. -/
def noHoles : Nat → List Helper → Bool
  | _, [] => true
  | e, q :: qs => e == q.start && noHoles q.stop qs

/-- `IP_REASS_VALIDATE_TELEGRAM_FINISHED`, `IP_REASS_VALIDATE_PBUF_QUEUED` and
`IP_REASS_VALIDATE_PBUF_DROPPED`. -/
inductive Validate where
  | telegramFinished
  | pbufQueued
  | pbufDropped
deriving DecidableEq, Repr

/-- `ip_reass_chain_frag_into_datagram_and_validate`: the result, and the queue. -/
def chainFragIntoDatagramAndValidate (ipr : Reassdata) (newP : Frag) (isLast : Bool) :
    Validate × List Helper :=
  let len := newP.hdr.len.toNat - newP.hdr.hlBytes
  let offset := newP.hdr.offsetBytes
  let new : Helper := ⟨offset, (offset + len) % 2 ^ 16, newP.data, newP.clen⟩
  if newP.hdr.len.toNat < newP.hdr.hlBytes then (.pbufDropped, ipr.p)
  else if new.stop < offset then (.pbufDropped, ipr.p)
  else
    match chainLoop new none true ipr.p with
    | none => (.pbufDropped, ipr.p)
    | some (front, back, valid) =>
      let p := front ++ new :: back
      if (isLast || ipr.lastfrag) && valid && (p.head?.map Helper.start == some 0) &&
          noHoles new.stop back then
        (.telegramFinished, p)
      else (.pbufQueued, p)

/-- The header of the datagram. -/
def Reassdata.datagramHdr (ipr : Reassdata) : IpHdr :=
  { ipr.iphdr with len := .ofNat (ipr.datagramLen + ipHlen), offset := 0, chksum := 0 }

/-- `nullreturn_ipr`: a datagram without fragments is taken out again. -/
def nullreturnIpr (s : State) (i : Nat) (ipr : Reassdata) : State :=
  if ipr.p = [] then { s with reassdatagrams := s.reassdatagrams.eraseIdx i } else s

/-- `ip4_reass` from the place where the datagram at place `i` is the fragment's. -/
def reassInto (s : State) (i : Nat) (ipr : Reassdata) (p : Frag) : Option Datagram × State :=
  let offset := p.hdr.offsetBytes
  let len := p.hdr.len.toNat - p.hdr.hlBytes
  let isLast := !p.hdr.mf
  let datagramLen := (offset + len) % 2 ^ 16
  if isLast ∧ (datagramLen < offset ∨ 0xffff - ipHlen < datagramLen) then
    (none, nullreturnIpr s i ipr)
  else
    match chainFragIntoDatagramAndValidate ipr p isLast with
    | (.pbufDropped, _) => (none, nullreturnIpr s i ipr)
    | (valid, q) =>
      let pbufcount := (s.pbufcount + p.clen) % 2 ^ 16
      let ipr := { ipr with p := q }
      let ipr := if isLast then { ipr with datagramLen := datagramLen, lastfrag := true } else ipr
      if valid = .telegramFinished then
        (some ⟨ipr.datagramHdr, q.flatMap Helper.data⟩,
          { s with
            reassdatagrams := s.reassdatagrams.eraseIdx i
            pbufcount := (pbufcount + 2 ^ 16 - clens q) % 2 ^ 16 })
      else
        (none, { s with reassdatagrams := s.reassdatagrams.set i ipr, pbufcount := pbufcount })

/-- `ip4_reass`: the datagram that is complete, if any. -/
def ip4Reass (s : State) (p : Frag) : Option Datagram × State :=
  if p.hdr.hlBytes ≠ ipHlen then (none, s)
  else if p.hdr.len.toNat < p.hdr.hlBytes then (none, s)
  else
    let (freed, s') := if ipReassMaxPbufs < s.pbufcount + p.clen then
        ipReassRemoveOldestDatagram s p.hdr p.clen
      else (1, s)
    if freed = 0 ∨ ipReassMaxPbufs < s'.pbufcount + p.clen then (none, s')
    else
      match s'.reassdatagrams.findIdx? fun r => Matches r.iphdr p.hdr with
      | none =>
        match ipReassEnqueueNewDatagram s' p.hdr p.clen with
        | (false, s') => (none, s')
        | (true, s') =>
          match s'.reassdatagrams with
          | [] => (none, s')
          | ipr :: _ => reassInto s' 0 ipr p
      | some i =>
        match s'.reassdatagrams[i]? with
        | none => (none, s')
        | some ipr =>
          -- the header of the first fragment is kept
          let ipr := if p.hdr.offsetBytes = 0 ∧ ipr.iphdr.offsetBytes ≠ 0 then
              { ipr with iphdr := p.hdr }
            else ipr
          reassInto { s' with reassdatagrams := s'.reassdatagrams.set i ipr } i ipr p

/-- The loop of `ip_reass_tmr` from the datagram at place `i` on. -/
def tmrLoop : Nat → Nat → State → State
  | 0, _, s => s
  | fuel + 1, i, s =>
    match s.reassdatagrams[i]? with
    | none => s
    | some r =>
      if 0 < r.timer then
        tmrLoop fuel (i + 1)
          { s with reassdatagrams := s.reassdatagrams.set i { r with timer := r.timer - 1 } }
      else tmrLoop fuel i (freeCompleteDatagram s i).2

/-- `ip_reass_tmr`. -/
def ipReassTmr (s : State) : State := tmrLoop s.reassdatagrams.length 0 s

/-- Nothing queued. -/
def State.empty : State := ⟨[], 0, []⟩

end Stm32F407.Lwip.Reass
