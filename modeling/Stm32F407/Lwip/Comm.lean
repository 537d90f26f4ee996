import Stm32F407.Lib.Runs
import Stm32F407.Lib.Words
import Mathlib.Data.Fin.VecNotation
import Mathlib.Data.Fintype.Basic
import Mathlib.Tactic.FinCases

/-!
# The network device: `lwip_app_comm.c`

Model of the device record `stcLwipObject`, of `IP4_ADDR` and of `lwip_dhcp_process_handle`, which
the periodic handler calls until DHCP has an outcome.

* `lwip_netif` is its three addresses and the try counter of its DHCP data. What `dhcp_start` does
  to them is a parameter; between two calls lwIP sets them to anything.
* Addresses are words in network order on a little-endian target, so the first byte of an address
  is the lowest byte of its word.

`dhcp_run`: over every run from status 0, the status goes 0, 1 and then 2 or 0xFF for good. Every
call does what the status asks for (`DhcpLaw`): the first starts DHCP, a later one enters 2 iff there
is an address and 0xFF iff there is none after too many tries; the call that enters 2 or 0xFF leaves
the record and the interface in agreement, the first by decoding the words (`ipBytes`) and the
second by building them (`ip4Addr`), which `ip4Addr_eq_iff` shows to be inverse.
-/

namespace Stm32F407.Lwip

open Stm32F407.Lib

/-! ## Addresses -/

/-- `LWIP_MAKEU32`. -/
def lwipMakeU32 (a b c d : UInt8) : UInt32 :=
  a.toUInt32 <<< 24 ||| b.toUInt32 <<< 16 ||| c.toUInt32 <<< 8 ||| d.toUInt32

/-- `PP_HTONL` on a little-endian target. -/
def ppHtonl (x : UInt32) : UInt32 :=
  (x &&& 0x000000ff) <<< 24 ||| (x &&& 0x0000ff00) <<< 8 |||
    (x &&& 0x00ff0000) >>> 8 ||| (x &&& 0xff000000) >>> 24

/-- `IP4_ADDR` of the four bytes of an array. -/
def ip4Addr (b : Fin 4 → UInt8) : UInt32 := ppHtonl (lwipMakeU32 (b 0) (b 1) (b 2) (b 3))

/-- The four assignments that decode an address into an array. -/
def ipBytes (w : UInt32) : Fin 4 → UInt8 :=
  ![w.toUInt8, (w >>> 8).toUInt8, (w >>> 16).toUInt8, (w >>> 24).toUInt8]

theorem lwipMakeU32_toNat (a b c d : UInt8) :
    (lwipMakeU32 a b c d).toNat =
      2 ^ 24 * a.toNat + 2 ^ 16 * b.toNat + 2 ^ 8 * c.toNat + d.toNat := by
  have ha := a.toNat_lt
  have hb := b.toNat_lt
  have hc := c.toNat_lt
  have h24 : (a.toUInt32 <<< 24).toNat = 2 ^ 24 * a.toNat := by
    simp [Nat.shiftLeft_eq]
    omega
  have h16 : (b.toUInt32 <<< 16).toNat = 2 ^ 16 * b.toNat := by
    simp [Nat.shiftLeft_eq]
    omega
  have h8 : (c.toUInt32 <<< 8).toNat = 2 ^ 8 * c.toNat := by
    simp [Nat.shiftLeft_eq]
    omega
  rw [lwipMakeU32, UInt32.toNat_or, UInt32.toNat_or, UInt32.toNat_or, h24, h16, h8,
    UInt8.toNat_toUInt32, or_bytes _ hb hc d.toNat_lt]

theorem ppHtonl_toNat (x : UInt32) :
    (ppHtonl x).toNat = 2 ^ 24 * (x.toNat % 2 ^ 8) + 2 ^ 16 * (x.toNat / 2 ^ 8 % 2 ^ 8) +
      2 ^ 8 * (x.toNat / 2 ^ 16 % 2 ^ 8) + x.toNat / 2 ^ 24 % 2 ^ 8 := by
  have h24 : ((x &&& 0x000000ff) <<< 24).toNat = 2 ^ 24 * (x.toNat % 2 ^ 8) := by
    have hm : x.toNat &&& 255 = x.toNat % 256 := by simpa using and_byte x.toNat 0
    simp [Nat.shiftLeft_eq, hm]
    omega
  have h16 : ((x &&& 0x0000ff00) <<< 8).toNat = 2 ^ 16 * (x.toNat / 2 ^ 8 % 2 ^ 8) := by
    have hm : x.toNat &&& 65280 = 256 * (x.toNat / 256 % 256) := by simpa using and_byte x.toNat 8
    simp [Nat.shiftLeft_eq, hm]
    omega
  have h8 : ((x &&& 0x00ff0000) >>> 8).toNat = 2 ^ 8 * (x.toNat / 2 ^ 16 % 2 ^ 8) := by
    have hm : x.toNat &&& 16711680 = 65536 * (x.toNat / 65536 % 256) := by
      simpa using and_byte x.toNat 16
    simp [Nat.shiftRight_eq_div_pow, hm]
    omega
  have h0 : ((x &&& 0xff000000) >>> 24).toNat = x.toNat / 2 ^ 24 % 2 ^ 8 := by
    have hm : x.toNat &&& 4278190080 = 16777216 * (x.toNat / 16777216 % 256) := by
      simpa using and_byte x.toNat 24
    simp [Nat.shiftRight_eq_div_pow, hm]
  rw [ppHtonl, UInt32.toNat_or, UInt32.toNat_or, UInt32.toNat_or, h24, h16, h8, h0,
    or_bytes _ (by omega) (by omega) (by omega)]

/-- The first byte of the array is the lowest byte of the address. -/
theorem ip4Addr_toNat (b : Fin 4 → UInt8) :
    (ip4Addr b).toNat =
      2 ^ 24 * (b 3).toNat + 2 ^ 16 * (b 2).toNat + 2 ^ 8 * (b 1).toNat + (b 0).toNat := by
  have h0 := (b 0).toNat_lt
  have h1 := (b 1).toNat_lt
  have h2 := (b 2).toNat_lt
  have h3 := (b 3).toNat_lt
  rw [ip4Addr, ppHtonl_toNat, lwipMakeU32_toNat]
  omega

/-- Building an address from the bytes decoded from it. -/
theorem ip4Addr_ipBytes (w : UInt32) : ip4Addr (ipBytes w) = w := by
  have := w.toNat_lt
  apply UInt32.toNat_inj.mp
  rw [ip4Addr_toNat]
  simp [ipBytes, Nat.shiftRight_eq_div_pow]
  omega

/-- Decoding an address built from bytes. -/
theorem ipBytes_ip4Addr (b : Fin 4 → UInt8) : ipBytes (ip4Addr b) = b := by
  have h := ip4Addr_toNat b
  have h0 := (b 0).toNat_lt
  have h1 := (b 1).toNat_lt
  have h2 := (b 2).toNat_lt
  have h3 := (b 3).toNat_lt
  funext i
  apply UInt8.toNat_inj.mp
  fin_cases i <;> simp [ipBytes, Nat.shiftRight_eq_div_pow, h] <;> omega

/-- **The two directions agree**: an address is built from an array iff the array is decoded from
it. -/
theorem ip4Addr_eq_iff (b : Fin 4 → UInt8) (w : UInt32) : ip4Addr b = w ↔ b = ipBytes w := by
  constructor
  · rintro rfl
    exact (ipBytes_ip4Addr b).symm
  · rintro rfl
    exact ip4Addr_ipBytes w

/-! ## The device record -/

/-- `enUdpState`. -/
inductive UdpState where
  | initOk
  | sendOk
  | recvOk
  | objCrtErr
  | connErr
  | bindErr
  | sendErr
  | recvErr
deriving DecidableEq, Repr

/-- The value of the enumerator. -/
def UdpState.toNat : UdpState → Nat
  | .initOk => 0
  | .sendOk => 1
  | .recvOk => 2
  | .objCrtErr => 3
  | .connErr => 4
  | .bindErr => 5
  | .sendErr => 6
  | .recvErr => 7

/-- `LwipObjectTypeDef`, without the MAC address. -/
structure LwipObject where
  remoteip : Fin 4 → UInt8
  ip : Fin 4 → UInt8
  netmask : Fin 4 → UInt8
  gateway : Fin 4 → UInt8
  dhcpstatus : UInt8
  udpstatus : UdpState

/-- `lwip_app_remote_ip_set`. -/
def lwipAppRemoteIpSet (ip0 ip1 ip2 ip3 : UInt8) (o : LwipObject) : LwipObject :=
  { o with remoteip := ![ip0, ip1, ip2, ip3] }

/-! ## The DHCP outcome -/

/-- `LWIP_MAX_DHCP_TRIES`. -/
def lwipMaxDhcpTries : UInt8 := 4

/-- `lwip_netif`: its addresses, and `tries` of its DHCP data. -/
structure Netif where
  ipAddr : UInt32
  netmask : UInt32
  gw : UInt32
  tries : UInt8

/-- `stcLwipObject` and `lwip_netif`. -/
structure Device where
  object : LwipObject
  netif : Netif

/-- `lwip_dhcp_process_handle`, where `dhcp_start` turns the interface into `dhcpStart` of it. -/
def lwipDhcpProcessHandle (dhcpStart : Netif → Netif) (s : Device) : Device :=
  if s.object.dhcpstatus = 0 then
    { object := { s.object with dhcpstatus := 1 }, netif := dhcpStart s.netif }
  else if s.object.dhcpstatus = 1 then
    let ip := s.netif.ipAddr
    let netmask := s.netif.netmask
    let gw := s.netif.gw
    if ip ≠ 0 then
      { s with object := { s.object with
          dhcpstatus := 2
          ip := ipBytes ip
          netmask := ipBytes netmask
          gateway := ipBytes gw } }
    else if s.netif.tries > lwipMaxDhcpTries then
      { object := { s.object with dhcpstatus := 0xFF }
        netif := { s.netif with
          ipAddr := ip4Addr s.object.ip
          netmask := ip4Addr s.object.netmask
          gw := ip4Addr s.object.gateway } }
    else s
  else s

/-- What happens to the device: lwIP sets the interface to anything, or the handler is called. -/
inductive DhcpEvent where
  | lwip (netif : Netif)
  | handle

/-- One event. -/
def Device.step (dhcpStart : Netif → Netif) (s : Device) : DhcpEvent → Device
  | .lwip netif => { s with netif := netif }
  | .handle => lwipDhcpProcessHandle dhcpStart s

/-- `lwip_app_init` marks DHCP as not started. -/
def Device.init (s : Device) : Device := { s with object := { s.object with dhcpstatus := 0 } }

/-- The statuses a run goes through. -/
def statusPath (dhcpStart : Netif → Netif) : Device → List DhcpEvent → List UInt8
  | s, [] => [s.object.dhcpstatus]
  | s, e :: es => s.object.dhcpstatus :: statusPath dhcpStart (s.step dhcpStart e) es

/-- An array and an address say the same, read in either direction. -/
def Agree (b : Fin 4 → UInt8) (w : UInt32) : Prop := b = ipBytes w ∧ ip4Addr b = w

/-- The record and the interface agree on the three addresses. -/
structure Device.Agrees (s : Device) : Prop where
  ip : Agree s.object.ip s.netif.ipAddr
  netmask : Agree s.object.netmask s.netif.netmask
  gateway : Agree s.object.gateway s.netif.gw

/-- DHCP has an outcome. -/
def Device.Settled (s : Device) : Prop := s.object.dhcpstatus = 2 ∨ s.object.dhcpstatus = 0xFF

/-- **The law of one call**: with status 0 it starts DHCP and enters 1; with status 1 it enters 2 when
there is an address, 0xFF when there is none after too many tries, and else nothing changes. A call
that settles DHCP leaves record and interface in agreement, the one that enters 2 by what it writes to
the record and the one that enters 0xFF by what it writes to the interface; a later call changes
nothing. -/
structure DhcpLaw (dhcpStart : Netif → Netif) (s : Device) : Prop where
  starts : s.object.dhcpstatus = 0 → lwipDhcpProcessHandle dhcpStart s =
    { object := { s.object with dhcpstatus := 1 }, netif := dhcpStart s.netif }
  succeeds : s.object.dhcpstatus = 1 →
    ((lwipDhcpProcessHandle dhcpStart s).object.dhcpstatus = 2 ↔ s.netif.ipAddr ≠ 0)
  fails : s.object.dhcpstatus = 1 → ((lwipDhcpProcessHandle dhcpStart s).object.dhcpstatus = 0xFF ↔
    s.netif.ipAddr = 0 ∧ lwipMaxDhcpTries < s.netif.tries)
  waits : s.object.dhcpstatus = 1 → s.netif.ipAddr = 0 → s.netif.tries ≤ lwipMaxDhcpTries →
    lwipDhcpProcessHandle dhcpStart s = s
  agrees : ¬ s.Settled → (lwipDhcpProcessHandle dhcpStart s).Settled →
    (lwipDhcpProcessHandle dhcpStart s).Agrees
  taken : (lwipDhcpProcessHandle dhcpStart s).object.dhcpstatus = 2 →
    (lwipDhcpProcessHandle dhcpStart s).netif = s.netif
  kept : (lwipDhcpProcessHandle dhcpStart s).object.dhcpstatus = 0xFF →
    (lwipDhcpProcessHandle dhcpStart s).object = { s.object with dhcpstatus := 0xFF }
  stays : s.Settled → lwipDhcpProcessHandle dhcpStart s = s
  failed : ¬ s.Settled → (lwipDhcpProcessHandle dhcpStart s).object.dhcpstatus = 0xFF →
    s.netif.ipAddr = 0 ∧ lwipMaxDhcpTries < s.netif.tries

variable {dhcpStart : Netif → Netif} {s : Device}

theorem agree_ipBytes (w : UInt32) : Agree (ipBytes w) w := ⟨rfl, ip4Addr_ipBytes w⟩

theorem agree_ip4Addr (b : Fin 4 → UInt8) : Agree b (ip4Addr b) := ⟨(ipBytes_ip4Addr b).symm, rfl⟩

/-- **What a call can do**: start DHCP, take over the address it got, fall back to the static one,
or nothing. -/
theorem lwipDhcpProcessHandle_cases (dhcpStart : Netif → Netif) (s : Device) :
    (s.object.dhcpstatus = 0 ∧ lwipDhcpProcessHandle dhcpStart s =
      { object := { s.object with dhcpstatus := 1 }, netif := dhcpStart s.netif }) ∨
    (s.object.dhcpstatus = 1 ∧ s.netif.ipAddr ≠ 0 ∧ lwipDhcpProcessHandle dhcpStart s =
      { s with object := { s.object with
          dhcpstatus := 2
          ip := ipBytes s.netif.ipAddr
          netmask := ipBytes s.netif.netmask
          gateway := ipBytes s.netif.gw } }) ∨
    (s.object.dhcpstatus = 1 ∧ s.netif.ipAddr = 0 ∧ lwipMaxDhcpTries < s.netif.tries ∧
      lwipDhcpProcessHandle dhcpStart s =
      { object := { s.object with dhcpstatus := 0xFF }
        netif := { s.netif with
          ipAddr := ip4Addr s.object.ip
          netmask := ip4Addr s.object.netmask
          gw := ip4Addr s.object.gateway } }) ∨
    (s.object.dhcpstatus = 1 ∧ s.netif.ipAddr = 0 ∧ ¬ lwipMaxDhcpTries < s.netif.tries ∧
      lwipDhcpProcessHandle dhcpStart s = s) ∨
    (s.object.dhcpstatus ≠ 0 ∧ s.object.dhcpstatus ≠ 1 ∧ lwipDhcpProcessHandle dhcpStart s = s) := by
  unfold lwipDhcpProcessHandle
  by_cases h0 : s.object.dhcpstatus = 0
  · exact .inl ⟨h0, if_pos h0⟩
  rw [if_neg h0]
  by_cases h1 : s.object.dhcpstatus = 1
  · rw [if_pos h1]
    by_cases hip : s.netif.ipAddr = 0
    · by_cases ht : lwipMaxDhcpTries < s.netif.tries
      · exact .inr (.inr (.inl ⟨h1, hip, ht, by simp [hip, ht]⟩))
      · exact .inr (.inr (.inr (.inl ⟨h1, hip, ht, by simp [hip, ht]⟩)))
    · exact .inr (.inl ⟨h1, hip, by simp [hip]⟩)
  · exact .inr (.inr (.inr (.inr ⟨h0, h1, if_neg h1⟩)))

/-- A settled device is left alone. -/
theorem lwipDhcpProcessHandle_settled (h : s.Settled) : lwipDhcpProcessHandle dhcpStart s = s := by
  unfold lwipDhcpProcessHandle
  rcases h with h | h <;> simp [h]

/-- A device under way is not settled. -/
theorem not_settled_of_eq_one (h : s.object.dhcpstatus = 1) : ¬ s.Settled := by
  unfold Device.Settled
  rw [h]
  decide

/-- Every call obeys the law. -/
theorem dhcpLaw (dhcpStart : Netif → Netif) (s : Device) : DhcpLaw dhcpStart s := by
  rcases lwipDhcpProcessHandle_cases dhcpStart s with
    ⟨h0, h⟩ | ⟨h1, hip, h⟩ | ⟨h1, hip, ht, h⟩ | ⟨h1, hip, ht, h⟩ | ⟨h0, h1, h⟩
  · -- DHCP is started
    refine ⟨fun _ => h, ?_, ?_, ?_, fun _ hs => ?_, ?_, ?_, lwipDhcpProcessHandle_settled, ?_⟩
    all_goals simp_all [Device.Settled]
  · -- the address is taken over
    refine ⟨?_, fun _ => ?_, fun _ => ?_, fun _ h0 => absurd h0 hip, fun _ _ => ?_, fun _ => ?_,
      fun hf => ?_, lwipDhcpProcessHandle_settled, fun _ hf => ?_⟩
    · rw [h1]
      exact fun h0 => absurd h0 (by decide)
    · rw [h]
      exact iff_of_true rfl hip
    · rw [h]
      exact iff_of_false (by simp) fun hc => hip hc.1
    · rw [h]
      exact ⟨agree_ipBytes _, agree_ipBytes _, agree_ipBytes _⟩
    · rw [h]
    · rw [h] at hf
      exact absurd hf (by simp)
    · rw [h] at hf
      exact absurd hf (by simp)
  · -- the static address stands in
    refine ⟨?_, fun _ => ?_, fun _ => ?_, fun _ _ hle => ?_, fun _ _ => ?_, fun h2 => ?_,
      fun _ => ?_, lwipDhcpProcessHandle_settled, fun _ _ => ⟨hip, ht⟩⟩
    · rw [h1]
      exact fun h0 => absurd h0 (by decide)
    · rw [h]
      exact iff_of_false (by simp) fun hc => hc hip
    · rw [h]
      exact iff_of_true rfl ⟨hip, ht⟩
    · exact absurd ht (UInt8.not_lt.mpr hle)
    · rw [h]
      exact ⟨agree_ip4Addr _, agree_ip4Addr _, agree_ip4Addr _⟩
    · rw [h] at h2
      exact absurd h2 (by simp)
    · rw [h]
  · -- neither an address nor too many tries
    have hns := not_settled_of_eq_one h1
    rw [← h] at hns
    refine ⟨?_, fun _ => ?_, fun _ => ?_, fun _ _ _ => h, fun _ hs => absurd hs hns,
      fun h2 => absurd (.inl h2) hns, fun hf => absurd (.inr hf) hns,
      lwipDhcpProcessHandle_settled, fun _ hf => absurd (.inr hf) hns⟩
    · rw [h1]
      exact fun h0 => absurd h0 (by decide)
    · exact iff_of_false (fun h2 => hns (.inl h2)) fun hc => hc hip
    · exact iff_of_false (fun hf => hns (.inr hf)) fun hc => ht hc.2
  · -- no status in which a call does anything
    refine ⟨fun hc => absurd hc h0, fun hc => absurd hc h1, fun hc => absurd hc h1,
      fun hc => absurd hc h1, fun hn hs => absurd (h ▸ hs) hn, fun _ => by rw [h], fun hf => ?_,
      lwipDhcpProcessHandle_settled, fun hn hf => absurd (.inr (h ▸ hf)) hn⟩
    rw [h] at hf ⊢
    rw [← hf]

/-! ## The path of the status -/

/-- An outcome stays. -/
theorem statusPath_settled (es : List DhcpEvent) (h : s.Settled) :
    statusPath dhcpStart s es = List.replicate (es.length + 1) s.object.dhcpstatus := by
  induction es generalizing s with
  | nil => rfl
  | cons e es ih =>
    rw [statusPath, List.length_cons, List.replicate_succ]
    congr 1
    cases e with
    | lwip netif => exact ih h
    | handle =>
      rw [Device.step, lwipDhcpProcessHandle_settled h]
      exact ih h

/-- While DHCP is under way the status is 1, up to an outcome. -/
theorem statusPath_waiting (dhcpStart : Netif → Netif) (es : List DhcpEvent)
    (h : s.object.dhcpstatus = 1) :
    ∃ b c, ∃ x : UInt8, (x = 2 ∨ x = 0xFF) ∧
      statusPath dhcpStart s es = List.replicate (b + 1) 1 ++ List.replicate c x := by
  induction es generalizing s with
  | nil => exact ⟨0, 0, 2, .inl rfl, by simp [statusPath, h]⟩
  | cons e es ih =>
    -- either the status is still 1 after the event, or the event settled it
    have hstep : (s.step dhcpStart e).object.dhcpstatus = 1 ∨ (s.step dhcpStart e).Settled := by
      cases e with
      | lwip netif => exact .inl h
      | handle =>
        rcases lwipDhcpProcessHandle_cases dhcpStart s with
          ⟨h0, _⟩ | ⟨_, _, h'⟩ | ⟨_, _, _, h'⟩ | ⟨_, _, _, h'⟩ | ⟨_, h1, _⟩
        · rw [h] at h0
          exact absurd h0 (by decide)
        · exact .inr (.inl (by rw [Device.step, h']))
        · exact .inr (.inr (by rw [Device.step, h']))
        · exact .inl (by rw [Device.step, h', h])
        · exact absurd h h1
    rcases hstep with h1 | hset
    · obtain ⟨b, c, x, hx, hp⟩ := ih h1
      exact ⟨b + 1, c, x, hx, by rw [statusPath, hp, h, List.replicate_succ (n := b + 1)]; rfl⟩
    · refine ⟨0, es.length + 1, _, hset, ?_⟩
      rw [statusPath, statusPath_settled es hset, h]
      rfl

/-- Before DHCP is started the status is 0, up to the first call. -/
theorem statusPath_start (es : List DhcpEvent) (h : s.object.dhcpstatus = 0) :
    ∃ a b c, ∃ x : UInt8, (x = 2 ∨ x = 0xFF) ∧ (b = 0 → c = 0) ∧
      statusPath dhcpStart s es =
        List.replicate (a + 1) 0 ++ (List.replicate b 1 ++ List.replicate c x) := by
  induction es generalizing s with
  | nil => exact ⟨0, 0, 0, 2, .inl rfl, fun _ => rfl, by simp [statusPath, h]⟩
  | cons e es ih =>
    cases e with
    | lwip netif =>
      obtain ⟨a, b, c, x, hx, hbc, hp⟩ := ih (s := s.step dhcpStart (.lwip netif)) h
      refine ⟨a + 1, b, c, x, hx, hbc, ?_⟩
      rw [statusPath, hp, h, List.replicate_succ (n := a + 1), List.cons_append]
    | handle =>
      have h1 : (s.step dhcpStart .handle).object.dhcpstatus = 1 := by
        rw [Device.step, lwipDhcpProcessHandle, if_pos h]
      obtain ⟨b, c, x, hx, hp⟩ := statusPath_waiting dhcpStart es h1
      refine ⟨0, b + 1, c, x, hx, fun hb => absurd hb (by omega), ?_⟩
      rw [statusPath, hp, h]
      rfl

/-- **The DHCP outcome and the device record agree**: over every run from status 0 the status is 0,
then 1, then for good 2 or 0xFF, and every call obeys the law. -/
theorem dhcp_run (dhcpStart : Netif → Netif) (s : Device) (es : List DhcpEvent) :
    (∃ a b c, ∃ x : UInt8, (x = 2 ∨ x = 0xFF) ∧ (b = 0 → c = 0) ∧
      statusPath dhcpStart s.init es =
        List.replicate (a + 1) 0 ++ (List.replicate b 1 ++ List.replicate c x)) ∧
    AllSteps (Device.step dhcpStart) (fun s e => e = .handle → DhcpLaw dhcpStart s) s.init es := by
  refine ⟨statusPath_start es rfl, ?_⟩
  refine allSteps_of_inv (P := fun _ => True) (fun _ _ _ => trivial) ?_ trivial
  intro s e _ _
  exact dhcpLaw dhcpStart s

/-- A device with the static address 192.168.0.122. -/
def staticDevice : Device where
  object := ⟨![192, 168, 0, 101], ![192, 168, 0, 122], ![255, 255, 255, 0], ![192, 168, 0, 1], 7,
    .initOk⟩
  netif := ⟨0, 0, 0, 0⟩

/-- No answer within the tries allowed, then one try too many: the interface gets the static
address. -/
def noAnswer : List DhcpEvent :=
  [.handle, .lwip ⟨0, 0, 0, 4⟩, .handle, .lwip ⟨0, 0, 0, 5⟩, .handle, .lwip ⟨9, 9, 9, 9⟩, .handle]

/-- The address 10.0.0.5 is there before the second call. -/
def answer : List DhcpEvent := [.handle, .lwip ⟨0x0500000A, 0x000000FF, 0x0100000A, 1⟩, .handle]

theorem dhcp_run_static :
    statusPath id staticDevice.init noAnswer = [0, 1, 1, 1, 1, 0xFF, 0xFF, 0xFF] ∧
      (run (Device.step id) staticDevice.init (noAnswer.take 5)).netif.ipAddr = 0x7A00A8C0 ∧
      statusPath id staticDevice.init answer = [0, 1, 1, 2] ∧
      (run (Device.step id) staticDevice.init answer).object.ip = ![10, 0, 0, 5] ∧
      AllSteps (Device.step id) (fun s e => e = .handle → DhcpLaw id s) staticDevice.init noAnswer :=
  ⟨by decide, by decide, by decide, by decide, (dhcp_run id staticDevice noAnswer).2⟩

end Stm32F407.Lwip
