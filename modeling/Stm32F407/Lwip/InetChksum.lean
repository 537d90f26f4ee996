import Stm32F407.Lib.OnesSum

/-!
# The Internet checksum: `inet_chksum.c`

Model of the checksum over packet buffers, with `LWIP_CHKSUM_ALGORITHM` 2.

* `lwip_standard_chksum` reads two bytes at a time, the low one first, from an address that may be
  odd: it then keeps the first byte for the end and exchanges the bytes of what it gets. `sum` is a
  `u32_t` and wraps.
* The functions over a chain add the sums of the buffers. After a buffer of odd length everything
  that follows is off by a byte, so they exchange the bytes of the accumulator and remember that they
  did. The accumulator there stays far below `2^32`.
* An address of IPv4 is a `u32_t` in network byte order: its low byte is the first on the line.

Results: the loop over words from any address is the plain sum (`checksum_from_any_address`), any
division of the bytes into buffers gives the same, also for the first `chksum_len` bytes only
(`checksum_of_any_division`); so a message checks out at the other end, however it is divided there
(`stored_checksum_verifies`), and one that was damaged in a word does not (`damaged_word_detected`).
-/

namespace Stm32F407.Lwip.Chksum

open Stm32F407.Lib

/-- A buffer of a chain: where its payload is, and the `len` bytes of it. -/
structure Piece where
  payload : Nat
  data : List UInt8
  len_lt : data.length < 2 ^ 16

/-- The bytes of a chain. -/
def bytes (p : List Piece) : List UInt8 := p.flatMap Piece.data

/-- The loop over words: the sum, and the byte left over. -/
def sumWords : List UInt8 → Nat → Nat × Option UInt8
  | [], sum => (sum, none)
  | [a], sum => (sum, some a)
  | a :: b :: xs, sum => sumWords xs ((sum + (a.toNat + 256 * b.toNat)) % 2 ^ 32)

/-- `lwip_standard_chksum`. -/
def lwipStandardChksum (dataptr : Nat) (xs : List UInt8) : Nat :=
  let odd := dataptr % 2 = 1
  let hi := if odd then (xs.head?.map UInt8.toNat).getD 0 else 0
  let r := sumWords (if odd then xs.tail else xs) 0
  let t := (r.2.map UInt8.toNat).getD 0 + 256 * hi
  let sum := fold16 (fold16 ((r.1 + t) % 2 ^ 32))
  if odd then swap16 sum else sum

/-- One round of the loops over a chain: the accumulator, and whether its bytes are exchanged. -/
def addPiece (s : Nat × Bool) (q : Piece) (chksum : Nat) : Nat × Bool :=
  let acc := fold16 (s.1 + chksum)
  if q.data.length % 2 ≠ 0 then (swap16 acc, !s.2) else (acc, s.2)

/-- The loop over the whole chain. -/
def sumChain (s : Nat × Bool) (p : List Piece) : Nat × Bool :=
  p.foldl (fun s q => addPiece s q (lwipStandardChksum q.payload q.data)) s

/-- The loop over the first `chksumLen` bytes of the chain. -/
def sumPartial : List Piece → Nat → Nat × Bool → Nat × Bool
  | [], _, s => s
  | q :: p, chksumLen, s =>
    if 0 < chksumLen then
      let chklen := min q.data.length chksumLen
      sumPartial p (chksumLen - chklen)
        (addPiece s q (lwipStandardChksum q.payload (q.data.take chklen)))
    else s

/-- The accumulator with its bytes back in place. -/
def straight (s : Nat × Bool) : Nat := if s.2 then swap16 s.1 else s.1

/-- `(u16_t)~(acc & 0xffffUL)`. -/
def complement (acc : Nat) : Nat := 2 ^ 16 - 1 - acc % 2 ^ 16

/-- `lwip_htons`. -/
def lwipHtons (x : UInt16) : Nat := swap16 x.toNat

/-- The end of `inet_cksum_pseudo_base`. -/
def finish (acc : Nat) (proto : UInt8) (protoLen : UInt16) : Nat :=
  complement (fold16 (fold16 (acc + lwipHtons proto.toUInt16 + lwipHtons protoLen)))

/-- `inet_cksum_pseudo_base`. -/
def inetCksumPseudoBase (p : List Piece) (proto : UInt8) (protoLen : UInt16) (acc : Nat) : Nat :=
  finish (straight (sumChain (acc, false) p)) proto protoLen

/-- `inet_cksum_pseudo_partial_base`. -/
def inetCksumPseudoPartialBase (p : List Piece) (proto : UInt8) (protoLen chksumLen : UInt16)
    (acc : Nat) : Nat :=
  finish (straight (sumPartial p chksumLen.toNat (acc, false))) proto protoLen

/-- The halves of an address. -/
def halves (addr : UInt32) : Nat := addr.toNat % 2 ^ 16 + addr.toNat / 2 ^ 16

/-- The sum of the two addresses, folded down to 16 bits. -/
def addrSum (src dest : UInt32) : Nat := fold16 (fold16 (halves src + halves dest))

/-- `inet_chksum_pseudo`. -/
def inetChksumPseudo (p : List Piece) (proto : UInt8) (protoLen : UInt16) (src dest : UInt32) :
    Nat :=
  inetCksumPseudoBase p proto protoLen (addrSum src dest)

/-- `inet_chksum_pseudo_partial`. -/
def inetChksumPseudoPartial (p : List Piece) (proto : UInt8) (protoLen chksumLen : UInt16)
    (src dest : UInt32) : Nat :=
  inetCksumPseudoPartialBase p proto protoLen chksumLen (addrSum src dest)

/-- `inet_chksum`, over the first `len` of the bytes `xs` at `dataptr`. -/
def inetChksum (dataptr : Nat) (xs : List UInt8) (len : UInt16) : Nat :=
  complement (lwipStandardChksum dataptr (xs.take len.toNat))

/-- `inet_chksum_pbuf`. -/
def inetChksumPbuf (p : List Piece) : Nat := complement (straight (sumChain (0, false) p))

/-! ## The loop over words -/

/-- Up to `0x20000` bytes the accumulator of the loop does not wrap. -/
theorem sumWords_eq (xs : List UInt8) (sum : Nat) (h : 2 * sum + 65535 * xs.length < 2 * 2 ^ 32) :
    (sumWords xs sum).1 + ((sumWords xs sum).2.map UInt8.toNat).getD 0 = sum + sum16 xs := by
  induction xs, sum using sumWords.induct with
  | case1 sum => rfl
  | case2 a sum => rfl
  | case3 a b xs sum ih =>
    have ha := a.toNat_lt
    have hb := b.toNat_lt
    simp only [List.length_cons] at h
    have hmod : (sum + (a.toNat + 256 * b.toNat)) % 2 ^ 32 = sum + (a.toNat + 256 * b.toNat) :=
      Nat.mod_eq_of_lt (by omega)
    rw [hmod] at ih
    rw [sumWords, hmod, ih (by omega), sum16]
    omega

/-- The words from an odd address are those from an even one with their bytes exchanged, and so is
their sum. -/
theorem lwipStandardChksum_eq (dataptr : Nat) {xs : List UInt8} (h : xs.length ≤ 0x20000) :
    lwipStandardChksum dataptr xs = wrap16 (sum16 xs) := by
  unfold lwipStandardChksum
  simp only
  split_ifs with hodd
  · cases xs with
    | nil => rfl
    | cons x xs =>
      have hx := x.toNat_lt
      simp only [List.length_cons] at h
      have hsum := sumWords_eq xs 0 (by omega)
      have hle := sum16_le xs
      simp only [List.head?_cons, List.tail_cons, Option.map_some, Option.getD_some]
      rw [Nat.zero_add] at hsum
      have hlt : (sumWords xs 0).1 + (((sumWords xs 0).2.map UInt8.toNat).getD 0 +
          256 * x.toNat) = sum16 xs + 256 * x.toNat := by omega
      rw [hlt, Nat.mod_eq_of_lt (by omega), fold16_fold16 (by omega), swap16_wrap16, sum16_cons,
        wrap16_eq_iff]
      omega
  · have hsum := sumWords_eq xs 0 (by omega)
    have hle := sum16_le xs
    rw [Nat.zero_add] at hsum
    rw [Nat.mul_zero, Nat.add_zero, hsum, Nat.mod_eq_of_lt (by omega), fold16_fold16 (by omega)]

/-! ## The loops over a chain -/

variable {s : Nat × Bool} {x y acc : Nat} {xs ys : List UInt8} {p p' : List Piece}

theorem swap16_swap16 (h : acc ≤ 65535) : swap16 (swap16 acc) = acc := by
  have := wrap16_shift 0 acc
  rw [Nat.zero_add, Nat.zero_add] at this
  rw [swap16_eq h, swap16_wrap16, this, wrap16_of_le h]

theorem swap16_le (w : Nat) : swap16 w ≤ 65535 := by
  unfold swap16
  omega

/-- Exchanging the bytes and remembering it changes nothing. -/
theorem straight_addPiece (hs : s.1 ≤ 65535) (q : Piece) (hx : x ≤ 65535) :
    straight (addPiece s q x) = straight (fold16 (s.1 + x), s.2) ∧ (addPiece s q x).1 ≤ 65535 := by
  have hle : fold16 (s.1 + x) ≤ 65535 := by
    rw [fold16_eq (by omega)]
    exact wrap16_le _
  unfold addPiece
  split_ifs with hodd
  · refine ⟨?_, swap16_le _⟩
    unfold straight
    cases s.2
    · exact swap16_swap16 hle
    · rfl
  · exact ⟨rfl, hle⟩

/-- A sum added to the accumulator counts by its place in a word. -/
theorem straight_add (hs : s.1 ≤ 65535) (hx : straight s = wrap16 x) (y : Nat) :
    straight (fold16 (s.1 + wrap16 y), s.2) = wrap16 (x + (if s.2 then 256 else 1) * y) := by
  have hy := wrap16_le y
  rw [fold16_eq (by omega)]
  unfold straight at hx ⊢
  cases hb : s.2 with
  | false =>
    rw [hb] at hx
    simp only [Bool.false_eq_true, if_false] at hx ⊢
    rw [hx, wrap16_wrap16_add, Nat.add_comm, wrap16_wrap16_add, Nat.one_mul, Nat.add_comm]
  | true =>
    rw [hb] at hx
    simp only [if_true] at hx ⊢
    rw [swap16_eq hs] at hx
    rw [swap16_wrap16, Nat.mul_add]
    calc wrap16 (256 * s.1 + 256 * wrap16 y)
        = wrap16 (256 * s.1 + 256 * y) :=
          wrap16_add_congr (wrap16_mul_congr (wrap16_of_le hy) 256) _
      _ = wrap16 (256 * y + 256 * s.1) := by rw [Nat.add_comm]
      _ = wrap16 (256 * y + x) := wrap16_add_congr hx _
      _ = wrap16 (x + 256 * y) := by rw [Nat.add_comm]

/-- The accumulator after the bytes `xs`, when it began with `x`. -/
structure Tracks (x : Nat) (xs : List UInt8) (s : Nat × Bool) : Prop where
  le : s.1 ≤ 65535
  swapped : s.2 = true ↔ xs.length % 2 ≠ 0
  sum : straight s = wrap16 (x + sum16 xs)

theorem Tracks.add (h : Tracks x xs s) (ys : List UInt8) :
    straight (fold16 (s.1 + wrap16 (sum16 ys)), s.2) = wrap16 (x + sum16 (xs ++ ys)) := by
  have hshift : (if s.2 = true then 256 else 1) = if xs.length % 2 = 0 then 1 else 256 := by
    by_cases hb : s.2 = true
    · rw [if_pos hb, if_neg (h.swapped.mp hb)]
    · rw [if_neg hb, if_pos (not_not.mp (mt h.swapped.mpr hb))]
  rw [straight_add h.le h.sum, hshift, Nat.add_assoc]
  exact wrap16_add_congr (sum16_append xs ys).symm x

theorem Piece.chksum_eq (q : Piece) :
    lwipStandardChksum q.payload q.data = wrap16 (sum16 q.data) :=
  lwipStandardChksum_eq _ (by have := q.len_lt; omega)

theorem Tracks.piece (h : Tracks x xs s) (q : Piece) :
    Tracks x (xs ++ q.data) (addPiece s q (lwipStandardChksum q.payload q.data)) := by
  rw [q.chksum_eq]
  obtain ⟨hsum, hle⟩ := straight_addPiece h.le q (wrap16_le (sum16 q.data))
  refine ⟨hle, ?_, hsum.trans (h.add q.data)⟩
  have hb := h.swapped
  unfold addPiece
  rw [List.length_append]
  split_ifs with hodd
  · simp only [Bool.not_eq_true', Bool.eq_false_iff, ne_eq, hb]
    omega
  · simp only [hb]
    omega

theorem bytes_cons (q : Piece) (p : List Piece) : bytes (q :: p) = q.data ++ bytes p :=
  List.flatMap_cons

theorem tracks_nil (hacc : acc ≤ 65535) : Tracks acc [] (acc, false) :=
  ⟨hacc, by simp, by simpa [straight, sum16] using (wrap16_of_le hacc).symm⟩

theorem Tracks.chain (h : Tracks x xs s) (p : List Piece) :
    Tracks x (xs ++ bytes p) (sumChain s p) := by
  induction p generalizing xs s with
  | nil => simpa [sumChain, bytes] using h
  | cons q p ih =>
    have := ih (h.piece q)
    rwa [List.append_assoc, ← bytes_cons] at this

theorem sumPartial_zero (p : List Piece) (s : Nat × Bool) : sumPartial p 0 s = s := by
  cases p <;> rfl

/-- The loop stops inside a buffer; how long the rest of it is makes no difference. -/
theorem Tracks.sumPartial (h : Tracks x xs s) (p : List Piece) (n : Nat) :
    straight (sumPartial p n s) = wrap16 (x + sum16 (xs ++ (bytes p).take n)) := by
  induction p generalizing xs s n with
  | nil => simpa [Chksum.sumPartial, bytes] using h.sum
  | cons q p ih =>
    by_cases hn : 0 < n
    · rw [Chksum.sumPartial, if_pos hn, bytes_cons]
      simp only
      by_cases hle : q.data.length ≤ n
      · rw [Nat.min_eq_left hle, List.take_length, List.take_append, List.take_of_length_le hle,
          ← List.append_assoc]
        exact ih (h.piece q) (n - q.data.length)
      · have hlt : n ≤ q.data.length := by omega
        have hlen : (q.data.take n).length ≤ 0x20000 := by
          have := q.len_lt
          rw [List.length_take]
          omega
        rw [Nat.min_eq_right hlt, Nat.sub_self, sumPartial_zero, List.take_append_of_le_length hlt,
          lwipStandardChksum_eq _ hlen, (straight_addPiece h.le q (wrap16_le _)).1]
        exact h.add _
    · obtain rfl : n = 0 := by omega
      rw [sumPartial_zero, List.take_zero, List.append_nil]
      exact h.sum

/-! ## The checksum of a message -/

/-- What the Internet checksum of the bytes `xs` is: the complement of the sum of their words. -/
def checksum (xs : List UInt8) : Nat := 65535 - wrap16 (sum16 xs)

/-- An address as it is on the line. -/
def addrBytes (addr : UInt32) : List UInt8 :=
  [.ofNat addr.toNat, .ofNat (addr.toNat / 2 ^ 8), .ofNat (addr.toNat / 2 ^ 16),
    .ofNat (addr.toNat / 2 ^ 24)]

/-- The pseudo header in front of the messages of TCP and UDP. -/
def pseudoHeader (proto : UInt8) (protoLen : UInt16) (src dest : UInt32) : List UInt8 :=
  addrBytes src ++ addrBytes dest ++
    [0, proto, .ofNat (protoLen.toNat / 2 ^ 8), .ofNat protoLen.toNat]

theorem complement_wrap16 (n : Nat) : complement (wrap16 n) = 65535 - wrap16 n := by
  have := wrap16_le n
  unfold complement
  omega

theorem halves_eq (addr : UInt32) : sum16 (addrBytes addr) = halves addr := by
  have := addr.toNat_lt
  simp only [addrBytes, sum16, UInt8.toNat_ofNat', halves]
  omega

theorem pseudoHeader_length (proto : UInt8) (protoLen : UInt16) (src dest : UInt32) :
    (pseudoHeader proto protoLen src dest).length = 12 := rfl

theorem sum16_pseudoHeader (proto : UInt8) (protoLen : UInt16) (src dest : UInt32) :
    sum16 (pseudoHeader proto protoLen src dest) =
      halves src + halves dest + lwipHtons proto.toUInt16 + lwipHtons protoLen := by
  have hp := proto.toNat_lt
  have hl := protoLen.toNat_lt
  have hone : (addrBytes src).length % 2 = 0 := by simp [addrBytes]
  have hboth : (addrBytes src ++ addrBytes dest).length % 2 = 0 := by simp [addrBytes]
  rw [pseudoHeader, sum16_append_of_even hboth, sum16_append_of_even hone, halves_eq, halves_eq,
    Nat.add_assoc _ (lwipHtons _)]
  simp only [sum16, UInt8.toNat_ofNat', lwipHtons, swap16, UInt8.toNat_toUInt16,
    UInt8.reduceToNat]
  omega

theorem addrSum_eq (src dest : UInt32) : addrSum src dest = wrap16 (halves src + halves dest) := by
  have := src.toNat_lt
  have := dest.toNat_lt
  exact fold16_fold16 (by unfold halves; omega)

/-- The end of the functions over a chain, for the bytes that were summed. -/
theorem finish_eq {src dest : UInt32} (proto : UInt8) (protoLen : UInt16)
    (h : acc = wrap16 (addrSum src dest + sum16 xs)) :
    finish acc proto protoLen = checksum (pseudoHeader proto protoLen src dest ++ xs) := by
  have hacc := wrap16_le (addrSum src dest + sum16 xs)
  have hp := swap16_le proto.toUInt16.toNat
  have hl := swap16_le protoLen.toNat
  rw [← h] at hacc
  rw [finish, checksum, sum16_append_of_even (by rw [pseudoHeader_length]), sum16_pseudoHeader]
  unfold lwipHtons
  rw [fold16_fold16 (by omega), complement_wrap16, h, addrSum_eq]
  generalize halves src + halves dest = hd
  generalize swap16 proto.toUInt16.toNat = a
  generalize swap16 protoLen.toNat = b
  congr 1
  calc wrap16 (wrap16 (wrap16 hd + sum16 xs) + a + b)
      = wrap16 (wrap16 hd + sum16 xs + (a + b)) := by rw [Nat.add_assoc, wrap16_wrap16_add]
    _ = wrap16 (hd + (sum16 xs + (a + b))) := by rw [Nat.add_assoc, wrap16_wrap16_add]
    _ = wrap16 (hd + a + b + sum16 xs) := by rw [Nat.add_comm (sum16 xs), ← Nat.add_assoc,
        ← Nat.add_assoc]

theorem inetChksumPseudo_eq (p : List Piece) (proto : UInt8) (protoLen : UInt16)
    (src dest : UInt32) : inetChksumPseudo p proto protoLen src dest =
      checksum (pseudoHeader proto protoLen src dest ++ bytes p) := by
  have hacc : addrSum src dest ≤ 65535 := by
    rw [addrSum_eq]
    exact wrap16_le _
  exact finish_eq proto protoLen ((tracks_nil hacc).chain p).sum

/-- **Any division of the bytes gives the same checksum**: for every chain, wherever the payloads of
its buffers are and however long each is, the checksums are those of the bytes in one piece; the
partial one is that of the first bytes only, wherever in a buffer they end. -/
theorem checksum_of_any_division (p : List Piece) (proto : UInt8) (protoLen : UInt16)
    (src dest : UInt32) :
    inetChksumPbuf p = checksum (bytes p) ∧
      inetChksumPseudo p proto protoLen src dest =
        checksum (pseudoHeader proto protoLen src dest ++ bytes p) ∧
      ∀ chksumLen, inetChksumPseudoPartial p proto protoLen chksumLen src dest =
        checksum (pseudoHeader proto protoLen src dest ++ (bytes p).take chksumLen.toNat) := by
  have hacc : addrSum src dest ≤ 65535 := by
    rw [addrSum_eq]
    exact wrap16_le _
  refine ⟨?_, inetChksumPseudo_eq p proto protoLen src dest, fun chksumLen => ?_⟩
  · have := ((tracks_nil (Nat.zero_le 65535)).chain p).sum
    rw [List.nil_append, Nat.zero_add] at this
    rw [inetChksumPbuf, this, complement_wrap16]
    rfl
  · exact finish_eq proto protoLen ((tracks_nil hacc).sumPartial p chksumLen.toNat)

/-- **Two bytes at a time, from any address, is the plain sum**, for as many bytes as the comment of
`lwip_standard_chksum` promises; so `inet_chksum`, whose `len` is a `u16_t`, does not depend on
where the bytes are. -/
theorem checksum_from_any_address (dataptr : Nat) (xs : List UInt8) :
    (xs.length ≤ 0x20000 → lwipStandardChksum dataptr xs = wrap16 (sum16 xs)) ∧
      ∀ len, inetChksum dataptr xs len = checksum (xs.take len.toNat) := by
  refine ⟨lwipStandardChksum_eq dataptr, fun len => ?_⟩
  have hlen := len.toNat_lt
  have htake := List.length_take_le len.toNat xs
  rw [inetChksum, lwipStandardChksum_eq dataptr (by omega), complement_wrap16]
  rfl

theorem checksum_from_any_address_odd :
    lwipStandardChksum 1001 [0x45, 0, 0, 0x1c, 0xff] = wrap16 (sum16 [0x45, 0, 0, 0x1c, 0xff]) ∧
      inetChksum 1001 [0x45, 0, 0, 0x1c, 0xff, 7] 5 = checksum [0x45, 0, 0, 0x1c, 0xff] ∧
      inetChksum 1001 [0x45, 0, 0, 0x1c, 0xff, 7] 5 = 0xe2bb :=
  ⟨(checksum_from_any_address 1001 _).1 (by decide),
    (checksum_from_any_address 1001 [0x45, 0, 0, 0x1c, 0xff, 7]).2 5, by decide⟩

/-! ## Sending and checking -/

/-- The sum of a message with the word `[a, b]` behind `xs`. -/
theorem sum16_word (hx : xs.length % 2 = 0) (a b : UInt8) (ys : List UInt8) :
    sum16 (xs ++ [a, b] ++ ys) = sum16 xs + sum16 ys + (a.toNat + 256 * b.toNat) := by
  rw [List.append_assoc, sum16_append_of_even hx, List.cons_append, List.cons_append,
    List.nil_append, sum16]
  omega

/-- A message checks out iff its sum reads as all ones. -/
theorem checksum_eq_zero_iff : checksum xs = 0 ↔ sum16 xs % 65535 = 0 ∧ 0 < sum16 xs := by
  have := wrap16_le (sum16 xs)
  rw [← wrap16_eq_max_iff, checksum]
  omega

/-- **A message that was sent checks out.** The sender sums the message with zeros in its checksum
field, at any even place, and stores the checksum there, or all ones where it is zero; however the
receiver's buffers divide the bytes, its own sum of them is then zero. -/
theorem stored_checksum_verifies {proto : UInt8} {protoLen : UInt16} {src dest : UInt32} {c : Nat}
    (hx : xs.length % 2 = 0) (hp : bytes p = xs ++ [0, 0] ++ ys)
    (hc : c = inetChksumPseudo p proto protoLen src dest ∨
      inetChksumPseudo p proto protoLen src dest = 0 ∧ c = 0xffff)
    (hp' : bytes p' = xs ++ [.ofNat c, .ofNat (c / 2 ^ 8)] ++ ys) :
    inetChksumPseudo p' proto protoLen src dest = 0 := by
  rw [inetChksumPseudo_eq, hp, checksum] at hc
  rw [inetChksumPseudo_eq, checksum_eq_zero_iff, hp', ← List.append_assoc, ← List.append_assoc]
  have hlen : (pseudoHeader proto protoLen src dest ++ xs).length % 2 = 0 := by
    rw [List.length_append, pseudoHeader_length]
    omega
  rw [← List.append_assoc, ← List.append_assoc, sum16_word hlen] at hc
  rw [sum16_word hlen]
  generalize sum16 (pseudoHeader proto protoLen src dest ++ xs) + sum16 ys = n at *
  simp only [UInt8.toNat_ofNat', UInt8.reduceToNat, Nat.mul_zero, Nat.add_zero] at hc ⊢
  have hle := wrap16_le n
  have hn := wrap16_cases n
  have hc16 : c % 2 ^ 8 + 256 * (c / 2 ^ 8 % 2 ^ 8) = c := by omega
  rw [hc16]
  omega

/-- A datagram of two bytes, in two buffers at the sender and in two others at the receiver. -/
theorem stored_checksum_verifies_udp :
    inetChksumPseudo [⟨1000, [0x12, 0x34, 0, 0x50, 0, 10, 0, 0, 0x61], by decide⟩,
        ⟨2001, [0x62], by decide⟩] 17 10 0x0100a8c0 0x0200a8c0 = 0xa00a ∧
      inetChksumPseudo [⟨1001, [0x12, 0x34, 0], by decide⟩,
        ⟨2000, [0x50, 0, 10, 0x0a, 0xa0, 0x61, 0x62], by decide⟩] 17 10 0x0100a8c0 0x0200a8c0 =
          0 := by
  have hc : 0xa00a = inetChksumPseudo
      [⟨1000, [0x12, 0x34, 0, 0x50, 0, 10, 0, 0, 0x61], by decide⟩, ⟨2001, [0x62], by decide⟩]
      17 10 0x0100a8c0 0x0200a8c0 := by decide
  have hx : [0x12, 0x34, 0, 0x50, 0, (10 : UInt8)].length % 2 = 0 := rfl
  exact ⟨hc.symm, @stored_checksum_verifies [0x12, 0x34, 0, 0x50, 0, 10] [0x61, 0x62] _ _ _ _ _ _ _
    hx rfl (Or.inl hc) rfl⟩

/-- **A word that was damaged is noticed**, but for zeros in the place of ones and the other way
round: when a message that checks out has another word at an even place, it checks out iff the two
words are the same or the one is zero and the other all ones. -/
theorem damaged_word_detected {proto : UInt8} {protoLen : UInt16} {src dest : UInt32}
    {a b a' b' : UInt8} (hproto : proto ≠ 0) (hx : xs.length % 2 = 0)
    (hp : bytes p = xs ++ [a, b] ++ ys) (hp' : bytes p' = xs ++ [a', b'] ++ ys)
    (hok : inetChksumPseudo p proto protoLen src dest = 0) :
    inetChksumPseudo p' proto protoLen src dest = 0 ↔
      (a, b) = (a', b') ∨ (a, b, a', b') = (0, 0, 0xff, 0xff) ∨
        (a, b, a', b') = (0xff, 0xff, 0, 0) := by
  have hlen : (pseudoHeader proto protoLen src dest ++ xs).length % 2 = 0 := by
    rw [List.length_append, pseudoHeader_length]
    omega
  have hpos : 0 < sum16 (pseudoHeader proto protoLen src dest ++ xs) := by
    have h0 : proto.toNat ≠ 0 := fun hc => hproto (UInt8.toNat_inj.mp hc)
    rw [sum16_append_of_even (by rw [pseudoHeader_length]), sum16_pseudoHeader]
    unfold lwipHtons swap16
    rw [UInt8.toNat_toUInt16]
    have := proto.toNat_lt
    omega
  rw [inetChksumPseudo_eq, checksum_eq_zero_iff, hp, ← List.append_assoc, ← List.append_assoc,
    sum16_word hlen] at hok
  rw [inetChksumPseudo_eq, checksum_eq_zero_iff, hp', ← List.append_assoc, ← List.append_assoc,
    sum16_word hlen]
  generalize sum16 (pseudoHeader proto protoLen src dest ++ xs) = n at *
  simp only [Prod.mk.injEq, ← UInt8.toNat_inj, UInt8.reduceToNat]
  have ha := a.toNat_lt
  have hb := b.toNat_lt
  have ha' := a'.toNat_lt
  have hb' := b'.toNat_lt
  generalize hw : a.toNat + 256 * b.toNat = w at *
  generalize hw' : a'.toNat + 256 * b'.toNat = w' at *
  have hle : w ≤ 65535 ∧ w' ≤ 65535 := by omega
  have hiff : (n + sum16 ys + w') % 65535 = 0 ∧ 0 < n + sum16 ys + w' ↔
      w = w' ∨ w = 0 ∧ w' = 65535 ∨ w = 65535 ∧ w' = 0 := by
    clear hw hw'
    omega
  rw [hiff]
  omega

/-- The same datagram with a bit of its length turned. -/
theorem damaged_word_detected_udp :
    inetChksumPseudo [⟨1001, [0x12, 0x34, 0], by decide⟩,
        ⟨2000, [0x50, 0, 10, 0x0a, 0xa0, 0x61, 0x62], by decide⟩] 17 10 0x0100a8c0 0x0200a8c0 =
          0 ∧
      inetChksumPseudo [⟨1000, [0x12, 0x34, 0, 0x50, 0, 11, 0x0a, 0xa0, 0x61, 0x62], by decide⟩]
        17 10 0x0100a8c0 0x0200a8c0 ≠ 0 := by
  have hok : inetChksumPseudo [⟨1001, [0x12, 0x34, 0], by decide⟩,
      ⟨2000, [0x50, 0, 10, 0x0a, 0xa0, 0x61, 0x62], by decide⟩] 17 10 0x0100a8c0 0x0200a8c0 =
        0 := by decide
  have hx : [0x12, 0x34, 0, (0x50 : UInt8)].length % 2 = 0 := rfl
  refine ⟨hok, fun hc => ?_⟩
  have := (@damaged_word_detected [0x12, 0x34, 0, 0x50] [0x0a, 0xa0, 0x61, 0x62] _ _ 17 10 _ _
    0 10 0 11 (by decide) hx rfl rfl hok).mp hc
  simp at this

end Stm32F407.Lwip.Chksum
